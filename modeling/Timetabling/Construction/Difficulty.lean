import Timetabling.Instance.Basic

/-! How hard each teacher is to place: at first the lectures taught and the slots not available,
    added over the courses. A teacher whose course found no slot is raised by a tenth, at least by
    two. Values stop at the greatest 64-bit number. -/

namespace Timetabling

open Instance

/-- The greatest difficulty. -/
def maxDifficulty : Nat := UInt64.size - 1

/-- The sum, stopped at the greatest difficulty. -/
def addDifficulty (a b : Nat) : Nat := min (a + b) maxDifficulty

/-- The difficulty of each teacher, by number. -/
structure Difficulty where
  levels : Array Nat
  deriving DecidableEq, Repr

namespace Difficulty

/-- The level of a teacher. -/
def level (d : Difficulty) (teacher : Nat) : Nat := d.levels.getD teacher 0

/-- The level after one raise. -/
def raised (level : Nat) : Nat := addDifficulty level (max 2 (level / 10))

/-- The difficulties after the teacher was raised. -/
def raise (d : Difficulty) (teacher : Nat) : Difficulty :=
  ⟨d.levels.modify teacher raised⟩

/-- The difficulties after the load of one course was added to its teacher. -/
def addLoad {I : Instance} (d : Difficulty) (c : CourseIx I) : Difficulty :=
  ⟨d.levels.modify (teacherOf c) fun level =>
    addDifficulty level (addDifficulty (course c).lectures (unavailableCount c))⟩

/-- The difficulties before anything was tried. -/
def initial (I : Instance) : Difficulty :=
  (List.finRange I.courses.size).foldl addLoad ⟨Array.replicate I.teachers.size 0⟩

end Difficulty

end Timetabling
