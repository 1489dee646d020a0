import Timetabling.Ctt.Reader
import Timetabling.Proofs.Ctt.Header

/-! What the records of the sections stand for, one by one. A record is a list of fields of the right
    length whose numerals are read as numbers, and the readers find just this where the identifiers
    that it mentions are known. -/

namespace Timetabling.Ctt

open Text

/-- The fields of a course; the flag for double lectures may be left out. -/
inductive IsCourse : List (List Char) → Course → Prop
  | plain {id teacher l d s : List Char} {lectures days students : Nat}
      (hl : unsigned? UInt64.size l = some lectures) (hd : unsigned? UInt64.size d = some days)
      (hs : unsigned? UInt32.size s = some students) :
      IsCourse [id, teacher, l, d, s]
        ⟨String.ofList id, String.ofList teacher, lectures, days, students, false, [], 0⟩
  | flagged {id teacher l d s f : List Char} {lectures days students flag : Nat}
      (hl : unsigned? UInt64.size l = some lectures) (hd : unsigned? UInt64.size d = some days)
      (hs : unsigned? UInt32.size s = some students) (hf : unsigned? UInt8.size f = some flag) :
      IsCourse [id, teacher, l, d, s, f]
        ⟨String.ofList id, String.ofList teacher, lectures, days, students, flag ≠ 0, [], 0⟩

/-- The fields of a room; the site may be left out. -/
inductive IsRoom : List (List Char) → Room → Prop
  | plain {id c : List Char} {capacity : Nat} (hc : unsigned? UInt32.size c = some capacity) :
      IsRoom [id, c] ⟨String.ofList id, capacity, 0⟩
  | sited {id c s : List Char} {capacity site : Nat}
      (hc : unsigned? UInt32.size c = some capacity) (hs : unsigned? UInt32.size s = some site) :
      IsRoom [id, c, s] ⟨String.ofList id, capacity, site⟩

/-- The fields of a curriculum: an identifier, the number of its members, and that many members. -/
inductive IsCurriculum : List (List Char) → CurriculumRecord → Prop
  | intro {id n : List Char} {ids : List (List Char)}
      (hn : unsigned? UInt64.size n = some ids.length) :
      IsCurriculum (id :: n :: ids) ⟨String.ofList id, ids.map String.ofList⟩

/-- The fields of an unavailability. -/
inductive IsUnavailability : List (List Char) → Unavailability → Prop
  | intro {id d p : List Char} {day period : Nat} (hd : unsigned? UInt64.size d = some day)
      (hp : unsigned? UInt64.size p = some period) :
      IsUnavailability [id, d, p] ⟨String.ofList id, day, period⟩

/-- The fields of a room constraint. -/
inductive IsRoomConstraint : List (List Char) → RoomConstraint → Prop
  | intro {id x : List Char} : IsRoomConstraint [id, x] ⟨String.ofList id, String.ofList x⟩

namespace Record

variable {r : Record} {courses : List Course} {rooms : List Room}

theorem number_eq_ok_iff {limit n : Nat} {what : String} {raw : List Char} :
    r.number limit what raw = .ok n ↔ unsigned? limit raw = some n := by
  unfold number
  split <;> simp_all [fail, Line.fail]

theorem courseWith_eq_ok_iff {double : Bool} {id teacher l d s : List Char} {c : Course} :
    r.courseWith double id teacher l d s = .ok c ↔ ∃ lectures days students,
      unsigned? UInt64.size l = some lectures ∧ unsigned? UInt64.size d = some days ∧
      unsigned? UInt32.size s = some students ∧
      ⟨String.ofList id, String.ofList teacher, lectures, days, students, double, [], 0⟩ = c := by
  simp only [courseWith, bind_eq_ok_iff, number_eq_ok_iff, pure, Except.pure, Except.ok.injEq]
  constructor
  · rintro ⟨lectures, hl, days, hd, students, hs, rfl⟩
    exact ⟨lectures, days, students, hl, hd, hs, rfl⟩
  · rintro ⟨lectures, days, students, hl, hd, hs, rfl⟩
    exact ⟨lectures, hl, days, hd, students, hs, rfl⟩

theorem course_eq_ok_iff {c : Course} : r.course = .ok c ↔ IsCourse r.fields c := by
  constructor
  · intro h
    unfold course at h
    split at h
    · rename_i id teacher l d s hfields
      obtain ⟨_, _, _, hl, hd, hs, rfl⟩ := courseWith_eq_ok_iff.1 h
      exact hfields ▸ .plain hl hd hs
    · rename_i id teacher l d s f hfields
      obtain ⟨_, hf, h⟩ := bind_eq_ok_iff.1 h
      obtain ⟨_, _, _, hl, hd, hs, rfl⟩ := courseWith_eq_ok_iff.1 h
      exact hfields ▸ .flagged hl hd hs (number_eq_ok_iff.1 hf)
    · simp [fail, Line.fail] at h
  · intro h
    generalize hfields : r.fields = fields at h
    cases h with
    | plain hl hd hs =>
      simp only [course, hfields]
      exact courseWith_eq_ok_iff.2 ⟨_, _, _, hl, hd, hs, rfl⟩
    | flagged hl hd hs hf =>
      simp only [course, hfields, bind_eq_ok_iff]
      exact ⟨_, number_eq_ok_iff.2 hf, courseWith_eq_ok_iff.2 ⟨_, _, _, hl, hd, hs, rfl⟩⟩

theorem room_eq_ok_iff {x : Room} : r.room = .ok x ↔ IsRoom r.fields x := by
  constructor
  · intro h
    unfold room at h
    split at h
    · rename_i id c hfields
      simp only [bind_eq_ok_iff, number_eq_ok_iff, pure, Except.pure, Except.ok.injEq] at h
      obtain ⟨_, hc, rfl⟩ := h
      exact hfields ▸ .plain hc
    · rename_i id c s hfields
      simp only [bind_eq_ok_iff, number_eq_ok_iff, pure, Except.pure, Except.ok.injEq] at h
      obtain ⟨_, hs, _, hc, rfl⟩ := h
      exact hfields ▸ .sited hc hs
    · simp [fail, Line.fail] at h
  · intro h
    generalize hfields : r.fields = fields at h
    cases h <;> simp_all [room, bind_eq_ok_iff, number_eq_ok_iff, pure, Except.pure]

theorem ite_fail_eq_ok_iff (known : String → Bool) {id name : String} {fault : Fault} :
    (if known id then .ok id else r.fail fault) = .ok name ↔ id = name ∧ known name = true := by
  split
  · rename_i h
    rw [Except.ok.injEq]
    exact ⟨fun e => ⟨e, e ▸ h⟩, And.left⟩
  · rename_i h
    simp only [fail, Line.fail, reduceCtorEq, false_iff, not_and]
    exact fun e => e ▸ h

theorem knownCourse_eq_ok_iff {id : List Char} {name : String} :
    r.knownCourse courses id = .ok name ↔
      String.ofList id = name ∧ (courses.any fun c => c.id = name) = true :=
  ite_fail_eq_ok_iff fun id => courses.any fun c => c.id = id

theorem knownRoom_eq_ok_iff {id : List Char} {name : String} :
    r.knownRoom rooms id = .ok name ↔
      String.ofList id = name ∧ (rooms.any fun x => x.id = name) = true :=
  ite_fail_eq_ok_iff fun id => rooms.any fun x => x.id = id

theorem mapM_knownCourse_eq_ok_iff {ids : List (List Char)} {names : List String} :
    ids.mapM (r.knownCourse courses) = .ok names ↔
      ids.map String.ofList = names ∧ ∀ name ∈ names, (courses.any fun c => c.id = name) = true := by
  simp only [mapM_eq_ok_iff, knownCourse_eq_ok_iff]
  induction ids generalizing names with
  | nil =>
    rw [List.forall₂_nil_left_iff]
    constructor
    · rintro rfl
      exact ⟨rfl, by simp⟩
    · exact fun h => h.1.symm
  | cons id ids ih =>
    rw [List.forall₂_cons_left_iff]
    constructor
    · rintro ⟨_, _, ⟨rfl, hid⟩, hrest, rfl⟩
      obtain ⟨rfl, hids⟩ := ih.1 hrest
      exact ⟨rfl, List.forall_mem_cons.2 ⟨hid, hids⟩⟩
    · rintro ⟨rfl, h⟩
      obtain ⟨hid, hids⟩ := List.forall_mem_cons.1 h
      exact ⟨_, _, ⟨rfl, hid⟩, ih.2 ⟨rfl, hids⟩, rfl⟩

theorem curriculum_eq_ok_iff {q : CurriculumRecord} : r.curriculum courses = .ok q ↔
    IsCurriculum r.fields q ∧ ∀ m ∈ q.members, (courses.any fun c => c.id = m) = true := by
  constructor
  · intro h
    unfold curriculum at h
    split at h
    · rename_i id n ids hfields
      obtain ⟨n, hn, h⟩ := bind_eq_ok_iff.1 h
      split at h
      · simp [fail, Line.fail] at h
      · rename_i hlen
        obtain ⟨names, hnames, h⟩ := bind_eq_ok_iff.1 h
        obtain rfl := Except.ok.inj h
        obtain ⟨rfl, hknown⟩ := mapM_knownCourse_eq_ok_iff.1 hnames
        rw [number_eq_ok_iff, Decidable.not_not.1 hlen] at hn
        exact ⟨hfields ▸ .intro hn, hknown⟩
    · simp [fail, Line.fail] at h
  · rintro ⟨h, hknown⟩
    generalize hfields : r.fields = fields at h
    cases h with
    | @intro id n ids hn =>
      simp only [curriculum, hfields, bind_eq_ok_iff]
      refine ⟨_, number_eq_ok_iff.2 hn, ?_⟩
      rw [if_neg (not_not_intro rfl), bind_eq_ok_iff]
      exact ⟨_, mapM_knownCourse_eq_ok_iff.2 ⟨rfl, hknown⟩, rfl⟩

theorem unavailability_eq_ok_iff {u : Unavailability} : r.unavailability courses = .ok u ↔
    IsUnavailability r.fields u ∧ (courses.any fun c => c.id = u.course) = true := by
  constructor
  · intro h
    unfold unavailability at h
    split at h
    · rename_i id d p hfields
      simp only [bind_eq_ok_iff, knownCourse_eq_ok_iff, number_eq_ok_iff, pure, Except.pure,
        Except.ok.injEq] at h
      obtain ⟨_, ⟨rfl, hknown⟩, _, hd, _, hp, rfl⟩ := h
      exact ⟨hfields ▸ .intro hd hp, hknown⟩
    · simp [fail, Line.fail] at h
  · rintro ⟨h, hknown⟩
    generalize hfields : r.fields = fields at h
    cases h with
    | intro hd hp =>
      simp only [unavailability, hfields, bind_eq_ok_iff]
      exact ⟨_, knownCourse_eq_ok_iff.2 ⟨rfl, hknown⟩, _, number_eq_ok_iff.2 hd, _,
        number_eq_ok_iff.2 hp, rfl⟩

theorem roomConstraint_eq_ok_iff {k : RoomConstraint} : r.roomConstraint courses rooms = .ok k ↔
    IsRoomConstraint r.fields k ∧ (courses.any fun c => c.id = k.course) = true ∧
      (rooms.any fun x => x.id = k.room) = true := by
  constructor
  · intro h
    unfold roomConstraint at h
    split at h
    · rename_i id x hfields
      simp only [bind_eq_ok_iff, knownCourse_eq_ok_iff, knownRoom_eq_ok_iff, pure, Except.pure,
        Except.ok.injEq] at h
      obtain ⟨_, ⟨rfl, hcourse⟩, _, ⟨rfl, hroom⟩, rfl⟩ := h
      exact ⟨hfields ▸ .intro, hcourse, hroom⟩
    · simp [fail, Line.fail] at h
  · rintro ⟨h, hcourse, hroom⟩
    generalize hfields : r.fields = fields at h
    cases h with
    | intro =>
      simp only [roomConstraint, hfields, bind_eq_ok_iff]
      exact ⟨_, knownCourse_eq_ok_iff.2 ⟨rfl, hcourse⟩, _, knownRoom_eq_ok_iff.2 ⟨rfl, hroom⟩, rfl⟩

end Record

end Timetabling.Ctt
