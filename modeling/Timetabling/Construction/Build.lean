import Timetabling.Construction.Difficulty
import Timetabling.Construction.SlotWalk
import Timetabling.Rooming

/-! Greedy construction of a timetable. Every lecture is pending, those of the hardest teachers
    first. A walk goes around the slots; at each stop the first pending lecture is placed at the
    first slot of the walk that it fits, and then the stop takes in every other pending lecture that
    fits it. When the first one fits nowhere, its teacher is raised and all starts again with a new
    walk. -/

namespace Timetabling

open Instance

variable {I : Instance}

/-- The lectures of all courses, those of the hardest teachers first, in the order of declaration
    on ties. -/
def pendingLectures (I : Instance) (hard : Difficulty) : List (CourseIx I) :=
  ((List.finRange I.courses.size).flatMap fun c =>
      List.replicate (course c).lectures c).mergeSort
    fun a b => hard.level (teacherOf b) ≤ hard.level (teacherOf a)

/-- Places at one slot, in order, every course of a list that fits there then; gives the draft and
    the courses that remain. -/
def fill (s : Slot I) : List (CourseIx I) → Draft I → Draft I × List (CourseIx I)
  | [], d => (d, [])
  | c :: cs, d =>
    if d.fits c s then fill s cs (d.placed c s)
    else
      let (d, rest) := fill s cs d
      (d, c :: rest)

theorem length_fill_le (s : Slot I) (cs : List (CourseIx I)) (d : Draft I) :
    (fill s cs d).2.length ≤ cs.length := by
  induction cs generalizing d with
  | nil => simp [fill]
  | cons c cs ih =>
    by_cases h : d.fits c s
    · simpa [fill, h] using Nat.le_succ_of_le (ih _)
    · simpa [fill, h] using ih d

/-- Places all pending lectures along a walk, or stops at the first one that fits nowhere. -/
def placeAll (w : SlotWalk I.slotCount) (d : Draft I) :
    List (CourseIx I) → Except (CourseIx I) (Draft I)
  | [] => .ok d
  | c :: cs =>
    match w.cycle.find? (d.fits c) with
    | none => .error c
    | some s =>
      let filled := fill w.position cs (d.placed c s)
      placeAll w.advance filled.1 filled.2
  termination_by cs => cs.length
  decreasing_by exact Nat.lt_succ_of_le (length_fill_le ..)

/-- One pass from an empty draft to a timetable, or the course that it could not place. -/
def buildOnce (hard : Difficulty) (w : SlotWalk I.slotCount) :
    Except (CourseIx I) (Timetable I) := do
  let d ← placeAll w .empty (pendingLectures I hard)
  d.withRooms.mapError Shortage.course

/-- Why no timetable was built. -/
inductive BuildError where
  | noRoomOrSlot (slots rooms lectures : Nat)
  | exhausted (attempts : Nat) (course teacher : String)
  deriving DecidableEq, Repr

/-- What is told about a failure. -/
def BuildError.message : BuildError → String
  | noRoomOrSlot slots rooms lectures =>
    s!"instance has {slots} slots and {rooms} rooms but {lectures} lectures to place"
  | exhausted attempts course teacher =>
    s!"no feasible timetable after {attempts} attempts: course '{course}' (teacher '{teacher}') " ++
      "could not be placed"

variable {σ : Type} [WordSource σ]

/-- Makes one pass and at most so many more, each with a new walk, and raises the teacher of the
    course at which a pass stopped. Without success gives the course of the last pass. -/
def buildWithin (hard : Difficulty) : Nat → Draw σ (Except (CourseIx I) (Timetable I))
  | 0 => do
    let w ← SlotWalk.random I.slotCount
    return buildOnce hard w
  | more + 1 => do
    let w ← SlotWalk.random I.slotCount
    match buildOnce hard w with
    | .ok t => return .ok t
    | .error c => buildWithin (hard.raise (teacherOf c)) more

/-- The number of passes that a limit allows: at least one. -/
def atLeastOne (limit : Nat) : Nat := max 1 limit

/-- Builds a timetable with every lecture, each at an available slot and in a suitable room. -/
def build (I : Instance) (limit : Nat) : Draw σ (Except BuildError (Timetable I)) :=
  if I.lectureCount = 0 then return .ok .empty
  else if I.slotCount = 0 ∨ I.rooms.size = 0 then
    return .error (.noRoomOrSlot I.slotCount I.rooms.size I.lectureCount)
  else do
    match ← buildWithin (Difficulty.initial I) (atLeastOne limit - 1) with
    | .ok t => return .ok t
    | .error c => return .error (.exhausted (atLeastOne limit) (course c).id (course c).teacher)

/-- Builds one timetable for each seed, from a generator of its own; the first failure counts. -/
def buildFromSeeds (I : Instance) (limit : Nat) :
    List UInt64 → Option (Except BuildError (List (Timetable I)))
  | [] => some (.ok [])
  | seed :: seeds => do
    let (built, _) ← (build I limit).run (Xoshiro.ofSeed seed)
    match built with
    | .error e => return .error e
    | .ok t => return (← buildFromSeeds I limit seeds).map (t :: ·)

/-- So many words, in order. -/
def drawSeeds : Nat → Draw σ (List UInt64)
  | 0 => return []
  | n + 1 => do
    let seed ← Draw.word
    return seed :: (← drawSeeds n)

/-- A population of the given size. All seeds are drawn before anything is built. -/
def buildMany (I : Instance) (limit size : Nat) :
    Draw σ (Except BuildError (List (Timetable I))) := do
  let seeds ← drawSeeds size
  match buildFromSeeds I limit seeds with
  | some built => return built
  | none => failure

end Timetabling
