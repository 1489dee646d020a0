import Timetabling.Instance.Basic
import Timetabling.Instance.Defect

/-! From records to an instance. `Records.link?` replaces every identifier by a number and fails at
    one that nothing declares; `Records.resolve` does so for records without defects and otherwise
    tells the defects. Teachers are numbered by first appearance, and a curriculum keeps its members
    in the order of their first mention. -/

namespace Timetabling

namespace Records

/-- The names of the teachers, in the order of first appearance. -/
def teacherNames (r : Records) : List String := (r.courses.map Course.teacher).eraseDups

/-- The numbers of the courses that a curriculum mentions, each once. -/
def members? (r : Records) (q : CurriculumRecord) : Option (List Nat) :=
  (q.members.mapM r.courseNumber?).map List.eraseDups

/-- Where an unavailability stands in the table of courses and slots. -/
def unavailabilityMark? (r : Records) (u : Unavailability) : Option (Nat × Nat) :=
  (r.courseNumber? u.course).map fun c => (c, u.day * r.periods + u.period)

/-- Where a room constraint stands in the table of courses and rooms. -/
def constraintMark? (r : Records) (k : RoomConstraint) : Option (Nat × Nat) := do
  let c ← r.courseNumber? k.course
  let x ← r.roomNumber? k.room
  return (c, x)

/-- The course with its curricula and its teacher by number, whatever numbers it had. -/
def numbered (r : Records) (members : List (List Nat)) (c : Course) (n : Nat) : Course :=
  { c with
    curricula := (members.zipIdx.filter fun m => m.1.contains n).map Prod.snd
    teacherNumber := r.teacherNames.idxOf c.teacher }

/-- The instance that the records describe, unless some identifier names nothing. -/
def link? (r : Records) : Option Instance := do
  let members ← r.curricula.mapM r.members?
  let unavailable ← r.unavailabilities.mapM r.unavailabilityMark?
  let forbidden ← r.roomConstraints.mapM r.constraintMark?
  return {
    name := r.name
    days := r.days
    periods := r.periods
    daily := r.daily
    courses := (r.courses.zipIdx.map fun c => r.numbered members c.1 c.2).toArray
    rooms := r.rooms.toArray
    curricula := (r.curricula.zipWith (fun q m => ⟨q.id, m⟩) members).toArray
    teachers := r.teacherNames.toArray
    unavailable := .ofMarks r.courses.length (r.days * r.periods) unavailable
    forbidden := .ofMarks r.courses.length r.rooms.length forbidden }

/-- The instance that the records describe, or what is wrong with them. -/
def resolve (r : Records) : Except (List Defect) Instance :=
  match r.defects with
  | [] =>
    match r.link? with
    | some I => .ok I
    | none => .error []
  | d :: ds => .error (d :: ds)

theorem defects_eq_nil_of_resolve {r : Records} {I : Instance} (h : r.resolve = .ok I) :
    r.defects = [] := by
  cases hd : r.defects with
  | nil => rfl
  | cons d ds => simp [resolve, hd] at h

theorem link?_eq_some_of_resolve {r : Records} {I : Instance} (h : r.resolve = .ok I) :
    r.link? = some I := by
  simp only [resolve, defects_eq_nil_of_resolve h] at h
  cases hl : r.link? with
  | none => simp [hl] at h
  | some J => simpa [hl] using h

end Records

end Timetabling
