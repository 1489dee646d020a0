import Timetabling.Instance.Basic

/-! Rooms for the courses that share a slot. Each course asks for one of its suitable rooms. Round
    by round the course with the fewest rooms still open to it is served, the first such course on
    ties; it gets the room that fits best, and that room is struck from the other requests. No
    choice is taken back, so the procedure may fail where a cleverer one would not. -/

namespace Timetabling

open Instance

variable {I : Instance}

/-- How a room fits a number of students: whether it is too small, and by how many seats it misses
    that number either way. -/
structure Fit where
  crowded : Bool
  gap : Nat
  deriving DecidableEq, Repr

namespace Fit

/-- Room enough is better than too little, then the smaller gap is better. -/
instance : LE Fit :=
  ⟨fun a b => (a.crowded = false ∧ b.crowded = true) ∨ (a.crowded = b.crowded ∧ a.gap ≤ b.gap)⟩

instance : DecidableLE Fit := fun _ _ => inferInstanceAs (Decidable (_ ∨ _))

theorem le_iff {a b : Fit} : a ≤ b ↔
    (a.crowded = false ∧ b.crowded = true) ∨ (a.crowded = b.crowded ∧ a.gap ≤ b.gap) := Iff.rfl

instance : Std.IsLinearPreorder Fit where
  le_refl a := le_iff.2 (.inr ⟨rfl, Nat.le_refl _⟩)
  le_trans a b c h₁ h₂ := by
    rw [le_iff] at *
    rcases a with ⟨_ | _, _⟩ <;> rcases b with ⟨_ | _, _⟩ <;> rcases c with ⟨_ | _, _⟩ <;>
      simp at h₁ h₂ ⊢
    all_goals omega
  le_total a b := by
    rw [le_iff, le_iff]
    rcases a with ⟨_ | _, _⟩ <;> rcases b with ⟨_ | _, _⟩ <;> simp
    all_goals omega

end Fit

/-- How the room fits the students of the course. -/
def fitOf (c : CourseIx I) (r : RoomIx I) : Fit :=
  let overflow := (room r).overflow (course c).students
  ⟨0 < overflow, overflow.natAbs⟩

/-- A course that asks for a room: the rooms still open to it, ascending, their number, and the room
    that it was given. -/
structure Request (I : Instance) where
  course : CourseIx I
  choices : List (RoomIx I)
  left : Nat
  given : Option (RoomIx I)
  deriving DecidableEq, Repr

namespace Request

/-- The request of a course before anything is given out. -/
def ofCourse (c : CourseIx I) : Request I := ⟨c, suitableRooms c, (suitableRooms c).length, none⟩

/-- The request once a room went to another course. -/
def strike (r : RoomIx I) (q : Request I) : Request I :=
  if q.given.isNone && q.choices.contains r then
    { q with choices := q.choices.erase r, left := q.left - 1 }
  else q

/-- The best of the rooms still open, the first one on ties. -/
def best? (q : Request I) : Option (RoomIx I) := q.choices.minOn? (fitOf q.course)

end Request

/-- The request with the fewest rooms left among those not served, the first one on ties, and its
    position. -/
def neediest? (qs : List (Request I)) : Option (Request I × Nat) :=
  (qs.zipIdx.filter fun q => q.1.given.isNone).minOn? fun q => q.1.left

/-- The requests after the one at position `i` got the room. -/
def serve (qs : List (Request I)) (i : Nat) (r : RoomIx I) : List (Request I) :=
  (qs.modify i fun q => { q with given := some r }).map (Request.strike r)

/-- Serves so many requests; fails with the first course that has no room left. -/
def serveRounds : Nat → List (Request I) → Except (CourseIx I) (List (Request I))
  | 0, qs => .ok qs
  | n + 1, qs =>
    match neediest? qs with
    | none => .ok qs
    | some (q, i) =>
      match q.best? with
      | none => .error q.course
      | some r => serveRounds n (serve qs i r)

/-- A room for each course, in the order of the courses, or the course that got none. -/
def allot (cs : List (CourseIx I)) : Except (CourseIx I) (List (RoomIx I)) :=
  (serveRounds cs.length (cs.map Request.ofCourse)).map fun qs => qs.filterMap Request.given

/-- The same for courses by plain numbers; nothing when one of them does not exist. -/
def allotByNumber? (I : Instance) (cs : List Nat) :
    Option (Except (CourseIx I) (List (RoomIx I))) :=
  (cs.mapM I.courseIx?).map allot

/-- Whether each course gets a room. -/
def allottable (cs : List (CourseIx I)) : Bool := (allot cs).isOk

end Timetabling
