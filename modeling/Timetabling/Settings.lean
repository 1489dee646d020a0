/-! The settings of a search: how often each randomised step is tried, how many meetings a sector
    has, and the seed. `set` keeps every number of attempts and the size of a sector positive;
    `assign` takes a number as it is. -/

namespace Timetabling

/-- What the user of a search may choose. -/
structure Settings where
  /-- Passes that the construction of one timetable may take. -/
  initAttempts : Nat := 300
  /-- Repairs that may be tried before a recipient is kept as it is. -/
  repairAttempts : Nat := 100
  /-- Random slots that are tried for one lecture. -/
  randomPlacements : Nat := 100
  /-- Changes that may be tried before a mutation gives up. -/
  mutationAttempts : Nat := 100
  /-- Meetings that a sector donates. -/
  sectorSize : Nat := 4
  /-- Where the random words come from; nothing when no seed is fixed. -/
  seed : Option Nat := none
  deriving DecidableEq, Repr

namespace Settings

/-- The fields of the settings. -/
inductive Field where
  | initAttempts
  | repairAttempts
  | randomPlacements
  | mutationAttempts
  | sectorSize
  | seed
  deriving DecidableEq, Repr

namespace Field

/-- The fields in the order of declaration. -/
def all : List Field :=
  [initAttempts, repairAttempts, randomPlacements, mutationAttempts, sectorSize, seed]

/-- The key under which the field is written. -/
def key : Field → String
  | initAttempts => "max_init_attempts"
  | repairAttempts => "max_repair_attempts"
  | randomPlacements => "random_placements"
  | mutationAttempts => "max_mutation_attempts"
  | sectorSize => "sector_size"
  | seed => "seed"

/-- The field with this key. -/
def ofKey? (key : String) : Option Field := all.find? fun f => f.key = key

/-- The least number that `set` gives to the field. -/
def least : Field → Nat
  | randomPlacements | seed => 0
  | _ => 1

end Field

/-- The number in a field; nothing for a seed that is not fixed. -/
def value? (s : Settings) : Field → Option Nat
  | .initAttempts => some s.initAttempts
  | .repairAttempts => some s.repairAttempts
  | .randomPlacements => some s.randomPlacements
  | .mutationAttempts => some s.mutationAttempts
  | .sectorSize => some s.sectorSize
  | .seed => s.seed

/-- The settings with a number in a field. -/
def assign (s : Settings) (f : Field) (n : Nat) : Settings :=
  match f with
  | .initAttempts => { s with initAttempts := n }
  | .repairAttempts => { s with repairAttempts := n }
  | .randomPlacements => { s with randomPlacements := n }
  | .mutationAttempts => { s with mutationAttempts := n }
  | .sectorSize => { s with sectorSize := n }
  | .seed => { s with seed := some n }

/-- The settings with a number in a field, raised to the least one that makes sense there. -/
def set (s : Settings) (f : Field) (n : Nat) : Settings := s.assign f (max f.least n)

end Settings

end Timetabling
