import Timetabling.Ctt.Reader
import Timetabling.Proofs.Checked.Tables
import Timetabling.Proofs.Instance.Resolution

/-! The reader of the `.ctt` layout with every access checked. Fields of a record are read by position
    and cut off from a position on, members are counted by a difference, identifiers are looked up, and
    marks are set in tables of a fixed size. Here each of these comes to nothing where it would break
    down, which is no error of the text. No text makes it happen: the number of fields is looked at
    before any of them is read, and records that are resolved are valid. Sums and products have no upper
    bound here. -/

namespace Timetabling

theorem mapM_congr_of_mem {α β : Type} {f g : α → Option β} {xs : List α}
    (h : ∀ x ∈ xs, f x = g x) : xs.mapM f = xs.mapM g := by
  induction xs with
  | nil => rfl
  | cons x xs ih =>
    rw [List.mapM_cons, List.mapM_cons, h x (List.mem_cons_self ..),
      ih fun x' hx' => h x' (List.mem_cons_of_mem _ hx')]

/-! ### Resolving -/

namespace Records

variable {r : Records}

/-- The members of a curriculum by number; each of them has to be a course that takes in the number of
    the curriculum. -/
def checkedMembers? (r : Records) (q : CurriculumRecord) : Option (List Nat) := do
  let ns ← r.members? q
  let _ ← ns.mapM (checkedIx r.courses.length)
  return ns

/-- The place of a mark, which has to be in the table. -/
def checkedMark (rows width : Nat) (m : Nat × Nat) : Option (Nat × Nat) := do
  let _ ← checkedIx (rows * width) (m.1 * width + m.2)
  return m

def checkedLink? (r : Records) : Option Instance := do
  let members ← r.curricula.mapM r.checkedMembers?
  let unavailable ← r.unavailabilities.mapM fun u => do
    checkedMark r.courses.length (r.days * r.periods) (← r.unavailabilityMark? u)
  let forbidden ← r.roomConstraints.mapM fun k => do
    checkedMark r.courses.length r.rooms.length (← r.constraintMark? k)
  return r.linked members unavailable forbidden

def checkedResolve (r : Records) : Option (Except (List Defect) Instance) :=
  match r.defects with
  | [] => r.checkedLink?.map .ok
  | d :: ds => some (.error (d :: ds))

theorem checkedMark_eq {rows width : Nat} {m : Nat × Nat} (hrow : m.1 < rows) (hcolumn : m.2 < width) :
    checkedMark rows width m = some m := by
  simp [checkedMark, checkedIx, MarkTable.place_lt hrow hcolumn]

theorem courseNumber?_lt {id : String} {n : Nat} (h : r.courseNumber? id = some n) :
    n < r.courses.length :=
  (List.findIdx?_eq_some_iff_getElem.1 h).1

theorem roomNumber?_lt {id : String} {n : Nat} (h : r.roomNumber? id = some n) :
    n < r.rooms.length :=
  (List.findIdx?_eq_some_iff_getElem.1 h).1

theorem checkedMembers?_eq (r : Records) (q : CurriculumRecord) :
    r.checkedMembers? q = r.members? q := by
  cases h : r.members? q with
  | none => simp [checkedMembers?, h]
  | some ns =>
    obtain ⟨ms, hms, rfl⟩ := Option.map_eq_some_iff.1 h
    obtain ⟨bounded, hbounded⟩ : ∃ bounded, ms.eraseDups.mapM (checkedIx r.courses.length) =
        some bounded := by
      refine exists_mapM fun n hn => ?_
      obtain ⟨id, -, hid⟩ := (mem_of_mapM hms).1 (List.mem_eraseDups.1 hn)
      simp [checkedIx, courseNumber?_lt hid]
    simp [checkedMembers?, h, hbounded]

theorem Valid.checkedMark_unavailability (h : r.Valid) {u : Unavailability}
    (hu : u ∈ r.unavailabilities) :
    (r.unavailabilityMark? u).bind (checkedMark r.courses.length (r.days * r.periods)) =
      r.unavailabilityMark? u := by
  cases hmark : r.unavailabilityMark? u with
  | none => rfl
  | some m =>
    obtain ⟨n, hn, rfl⟩ := Option.map_eq_some_iff.1 hmark
    obtain ⟨-, hday, hperiod⟩ := h.unavailability u hu
    exact checkedMark_eq (courseNumber?_lt hn) (MarkTable.place_lt hday hperiod)

theorem checkedMark_constraint (k : RoomConstraint) :
    (r.constraintMark? k).bind (checkedMark r.courses.length r.rooms.length) =
      r.constraintMark? k := by
  cases hmark : r.constraintMark? k with
  | none => rfl
  | some m =>
    obtain ⟨hn, hx⟩ := constraintMark?_eq_some_iff.1 hmark
    exact checkedMark_eq (courseNumber?_lt hn) (roomNumber?_lt hx)

theorem Valid.checkedLink?_eq (h : r.Valid) : r.checkedLink? = r.link? := by
  have hmembers : r.checkedMembers? = r.members? := funext r.checkedMembers?_eq
  have hmarks : r.unavailabilities.mapM (fun u => (r.unavailabilityMark? u).bind
      (checkedMark r.courses.length (r.days * r.periods))) =
        r.unavailabilities.mapM r.unavailabilityMark? :=
    mapM_congr_of_mem fun u hu => h.checkedMark_unavailability hu
  simp only [checkedLink?, link?, linked, hmembers, bind, hmarks, checkedMark_constraint]

theorem checkedResolve_eq (r : Records) : r.checkedResolve = some r.resolve := by
  cases hd : r.defects with
  | nil =>
    obtain ⟨I, hI⟩ := exists_resolve hd
    have hlink := (defects_eq_nil_iff.1 hd).checkedLink?_eq.trans (link?_eq_some_of_resolve hI)
    rw [checkedResolve, hd, hI]
    simp only [hlink, Option.map_some]
  | cons d ds =>
    rw [checkedResolve, resolve, hd]

end Records

/-! ### Reading -/

namespace Ctt

/-- A step of the reader that gives a result or an error, or breaks down. -/
abbrev Checked (α : Type) := ExceptT ReadError Option α

namespace Checked

variable {α β : Type}

/-- A step that does not break down. -/
def sure (x : Except ReadError α) : Checked α := ExceptT.mk (some x)

/-- A step that breaks down where nothing is found. -/
def found (o : Option α) : Checked α := ExceptT.lift o

theorem pure_eq_sure (a : α) : (pure a : Checked α) = sure (.ok a) := rfl

theorem found_some (a : α) : found (some a) = sure (.ok a) := rfl

theorem sure_bind (x : Except ReadError α) (f : α → Except ReadError β) :
    (sure x >>= fun a => sure (f a)) = sure (x >>= f) := by
  cases x <;> rfl

theorem ite_sure (p : Prop) [Decidable p] (x y : Except ReadError α) :
    (if p then sure x else sure y) = sure (if p then x else y) :=
  (apply_ite sure p x y).symm

theorem mapM_sure (f : α → Except ReadError β) (xs : List α) :
    xs.mapM (fun x => sure (f x)) = sure (xs.mapM f) := by
  induction xs with
  | nil => rfl
  | cons x xs ih => simp only [List.mapM_cons, ih, pure_eq_sure, sure_bind]; rfl

end Checked

namespace Record

open Checked

/-- The number of fields is one of those that are allowed. -/
def arity (r : Record) (part : Section) (allowed : List Nat) : Except ReadError Unit :=
  if allowed.contains r.fields.length then .ok ()
  else r.fail (.fieldCount part allowed r.fields.length)

/-- The field at this position, which has to be there. -/
def checkedField (r : Record) (i : Nat) : Checked (List Char) := found r.fields[i]?

def checkedNumber (r : Record) (limit : Nat) (what : String) (i : Nat) : Checked Nat := do
  sure (r.number limit what (← r.checkedField i))

def checkedCourse (r : Record) : Checked Course := do
  sure (r.arity .courses [5, 6])
  let double ← match r.fields[5]? with
    | some _ => do
      let flag ← r.checkedNumber UInt8.size "double lectures flag" 5
      pure (decide (flag ≠ 0))
    | none => pure false
  let id ← r.checkedField 0
  let teacher ← r.checkedField 1
  let lectures ← r.checkedNumber UInt64.size "lectures" 2
  let days ← r.checkedNumber UInt64.size "minimum working days" 3
  let students ← r.checkedNumber UInt32.size "students" 4
  return {
    id := String.ofList id
    teacher := String.ofList teacher
    lectures := lectures
    minWorkingDays := days
    students := students
    doubleLectures := double }

def checkedRoom (r : Record) : Checked Room := do
  sure (r.arity .rooms [2, 3])
  let site ← match r.fields[2]? with
    | some _ => r.checkedNumber UInt32.size "site" 2
    | none => pure 0
  let id ← r.checkedField 0
  return ⟨String.ofList id, ← r.checkedNumber UInt32.size "capacity" 1, site⟩

def checkedCurriculum (r : Record) (courses : List Course) : Checked CurriculumRecord := do
  if r.fields.length < 2 then sure (r.fail .noMemberCount)
  else
    let count ← r.checkedNumber UInt64.size "member count" 1
    let listed ← found (checkedSub r.fields.length 2)
    if count ≠ listed then sure (r.fail (.memberCount count listed))
    else
      let ids ← found (checkedSlice r.fields 2 r.fields.length)
      let members ← ids.mapM fun id => sure (r.knownCourse courses id)
      return ⟨String.ofList (← r.checkedField 0), members⟩

def checkedUnavailability (r : Record) (courses : List Course) : Checked Unavailability := do
  sure (r.arity .unavailabilities [3])
  let course ← sure (r.knownCourse courses (← r.checkedField 0))
  let day ← r.checkedNumber UInt64.size "day" 1
  let period ← r.checkedNumber UInt64.size "period" 2
  return ⟨course, day, period⟩

def checkedRoomConstraint (r : Record) (courses : List Course) (rooms : List Room) :
    Checked RoomConstraint := do
  sure (r.arity .roomConstraints [2])
  let course ← sure (r.knownCourse courses (← r.checkedField 0))
  let room ← sure (r.knownRoom rooms (← r.checkedField 1))
  return ⟨course, room⟩

/-! Records with another number of fields are refused before any field is read. -/

theorem checkedCourse_eq (r : Record) : r.checkedCourse = sure r.course := by
  obtain ⟨line, fields⟩ := r
  rcases fields with _ | ⟨a, _ | ⟨b, _ | ⟨c, _ | ⟨d, _ | ⟨e, _ | ⟨f, _ | ⟨g, fields⟩⟩⟩⟩⟩⟩⟩
  case cons.cons.cons.cons.cons.nil =>
    simp only [checkedCourse, checkedNumber, checkedField, List.getElem?_cons_zero,
      List.getElem?_cons_succ, List.getElem?_nil, found_some, pure_eq_sure, sure_bind]
    rfl
  case cons.cons.cons.cons.cons.cons.nil =>
    simp only [checkedCourse, checkedNumber, checkedField, List.getElem?_cons_zero,
      List.getElem?_cons_succ, found_some, pure_eq_sure, sure_bind]
    rfl
  all_goals rfl

theorem checkedRoom_eq (r : Record) : r.checkedRoom = sure r.room := by
  obtain ⟨line, fields⟩ := r
  rcases fields with _ | ⟨a, _ | ⟨b, _ | ⟨c, _ | ⟨d, fields⟩⟩⟩⟩
  case cons.cons.nil =>
    simp only [checkedRoom, checkedNumber, checkedField, List.getElem?_cons_zero,
      List.getElem?_cons_succ, List.getElem?_nil, found_some, pure_eq_sure, sure_bind]
    rfl
  case cons.cons.cons.nil =>
    simp only [checkedRoom, checkedNumber, checkedField, List.getElem?_cons_zero,
      List.getElem?_cons_succ, found_some, pure_eq_sure, sure_bind]
    rfl
  all_goals rfl

theorem checkedCurriculum_eq (r : Record) (courses : List Course) :
    r.checkedCurriculum courses = sure (r.curriculum courses) := by
  obtain ⟨line, fields⟩ := r
  rcases fields with _ | ⟨id, _ | ⟨count, ids⟩⟩
  · rfl
  · rfl
  have hmany : ¬(id :: count :: ids).length < 2 := by simp
  have hlisted : checkedSub (id :: count :: ids).length 2 = some ids.length := by
    simp [checkedSub]
  have hids : checkedSlice (id :: count :: ids) 2 (id :: count :: ids).length = some ids := by
    simp [checkedSlice]
  simp only [checkedCurriculum, curriculum, if_neg hmany, hlisted, hids, checkedNumber, checkedField,
    List.getElem?_cons_zero, List.getElem?_cons_succ, found_some, pure_eq_sure, sure_bind, mapM_sure,
    ite_sure]
  rfl

theorem checkedUnavailability_eq (r : Record) (courses : List Course) :
    r.checkedUnavailability courses = sure (r.unavailability courses) := by
  obtain ⟨line, fields⟩ := r
  rcases fields with _ | ⟨a, _ | ⟨b, _ | ⟨c, _ | ⟨d, fields⟩⟩⟩⟩
  case cons.cons.cons.nil =>
    simp only [checkedUnavailability, checkedNumber, checkedField, List.getElem?_cons_zero,
      List.getElem?_cons_succ, found_some, pure_eq_sure, sure_bind]
    rfl
  all_goals rfl

theorem checkedRoomConstraint_eq (r : Record) (courses : List Course) (rooms : List Room) :
    r.checkedRoomConstraint courses rooms = sure (r.roomConstraint courses rooms) := by
  obtain ⟨line, fields⟩ := r
  rcases fields with _ | ⟨a, _ | ⟨b, _ | ⟨c, fields⟩⟩⟩
  case cons.cons.nil =>
    simp only [checkedRoomConstraint, checkedField, List.getElem?_cons_zero,
      List.getElem?_cons_succ, found_some, pure_eq_sure, sure_bind]
    rfl
  all_goals rfl

end Record

open Checked

def checkedRecordsOf (h : Header) (b : Body) : Checked Records := do
  let days ← sure (Header.grid h.days .days)
  let periods ← sure (Header.grid h.periods .periods)
  let courses ← (← sure (b.counted .courses true h.courses)).mapM (·.checkedCourse)
  let rooms ← (← sure (b.counted .rooms true h.rooms)).mapM (·.checkedRoom)
  let curricula ← (← sure (b.counted .curricula true h.curricula)).mapM (·.checkedCurriculum courses)
  let unavailabilities ← (← sure (b.counted .unavailabilities true h.unavailabilities)).mapM
    (·.checkedUnavailability courses)
  let roomConstraints ←
    (← sure (b.counted .roomConstraints (h.roomConstraints.any (0 < ·)) h.roomConstraints)).mapM
      (·.checkedRoomConstraint courses rooms)
  return {
    name := h.name
    days := days
    periods := periods
    daily := h.daily.getD ⟨0, 0⟩
    courses := courses
    rooms := rooms
    curricula := curricula
    unavailabilities := unavailabilities
    roomConstraints := roomConstraints }

/-- Reads a text as `read` does, but gives nothing where a step breaks down. -/
def checkedRead (text : List Char) : Option (Except ReadError Instance) := ExceptT.run do
  let top ← sure (({} : Header).read (Line.ofText text))
  let body ← sure (Body.read none top.2)
  let records ← checkedRecordsOf top.1 body
  let resolved ← found records.checkedResolve
  sure (resolved.mapError .defective)

theorem checkedRecordsOf_eq (h : Header) (b : Body) :
    checkedRecordsOf h b = sure (recordsOf h b) := by
  simp only [checkedRecordsOf, Record.checkedCourse_eq, Record.checkedRoom_eq,
    Record.checkedCurriculum_eq, Record.checkedUnavailability_eq, Record.checkedRoomConstraint_eq,
    mapM_sure, pure_eq_sure, sure_bind]
  rfl

/-- No text makes the reader break down. -/
theorem checkedRead_eq (text : List Char) : checkedRead text = some (read text) := by
  simp only [checkedRead, checkedRecordsOf_eq, Records.checkedResolve_eq, found_some, sure_bind, read,
    readRecords, bind_assoc]
  rfl

end Ctt

end Timetabling
