import Mathlib.Data.List.Forall2
import Timetabling.Instance.Resolve

/-! What every instance has that comes from records. Its grid has a slot, the curricula that a course
    lists exist, and a course lists a curriculum exactly when the curriculum lists the course. -/

namespace Timetabling

/-- A look-up of all members of a list that succeeds has looked up each of them in turn. -/
theorem forall₂_of_mapM {α β : Type} {f : α → Option β} {xs : List α} {ys : List β}
    (h : xs.mapM f = some ys) : List.Forall₂ (fun x y => f x = some y) xs ys := by
  induction xs generalizing ys with
  | nil =>
    obtain rfl : ys = [] := by simpa using h.symm
    exact .nil
  | cons x xs ih =>
    rw [List.mapM_cons] at h
    obtain ⟨y, hy, h⟩ := Option.bind_eq_some_iff.1 h
    obtain ⟨ys, hys, h⟩ := Option.bind_eq_some_iff.1 h
    obtain rfl := Option.some.inj h
    exact .cons hy (ih hys)

/-- The members of a list are numbered upwards. -/
theorem pairwise_snd_zipIdx {α : Type} (xs : List α) :
    xs.zipIdx.Pairwise fun e e' => e.2 < e'.2 := by
  refine (List.pairwise_map (f := Prod.snd) (R := fun i j : Nat => i < j)).1 ?_
  rw [List.zipIdx_map_snd]
  exact List.pairwise_lt_range'

namespace Instance

variable {I : Instance}

/-- The numbers in the records of an instance fit together. -/
structure Coherent (I : Instance) : Prop where
  days_pos : 0 < I.days
  periods_pos : 0 < I.periods
  lt_of_mem_curriculaOf : ∀ {c : CourseIx I} {q : Nat}, q ∈ curriculaOf c → q < I.curricula.size
  mem_courses_iff : ∀ {c : CourseIx I} {q : CurriculumIx I},
    c.val ∈ I.curricula[q].courses ↔ q ∈ memberships c

/-- The curriculum with this number. -/
def curriculum (q : CurriculumIx I) : Curriculum := I.curricula[q]

theorem shareCurriculum_of_mem {a b : CourseIx I} {q : CurriculumIx I} (ha : q ∈ memberships a)
    (hb : q ∈ memberships b) : shareCurriculum a b = true := by
  simp only [shareCurriculum, List.any_eq_true, List.contains_iff_mem]
  exact ⟨q, mem_memberships.1 ha, mem_memberships.1 hb⟩

namespace Coherent

/-- Nothing is lost when the curricula of a course are turned into bounded numbers. -/
theorem exists_membership (hI : I.Coherent) {c : CourseIx I} {n : Nat} (h : n ∈ curriculaOf c) :
    ∃ q ∈ memberships c, q.val = n :=
  ⟨⟨n, hI.lt_of_mem_curriculaOf h⟩, mem_memberships.2 h, rfl⟩

theorem shareCurriculum_iff (hI : I.Coherent) {a b : CourseIx I} :
    shareCurriculum a b = true ↔ ∃ q, q ∈ memberships a ∧ q ∈ memberships b := by
  constructor
  · intro h
    simp only [shareCurriculum, List.any_eq_true, List.contains_iff_mem] at h
    obtain ⟨n, ha, hb⟩ := h
    obtain ⟨q, hq, rfl⟩ := hI.exists_membership ha
    exact ⟨q, hq, mem_memberships.2 hb⟩
  · rintro ⟨q, ha, hb⟩
    exact shareCurriculum_of_mem ha hb

end Coherent

theorem shareCurriculum_comm (a b : CourseIx I) : shareCurriculum a b = shareCurriculum b a := by
  rw [Bool.eq_iff_iff]
  simp only [shareCurriculum, List.any_eq_true, List.contains_iff_mem]
  exact exists_congr fun _ => and_comm

theorem conflict_eq_true_iff {a b : CourseIx I} :
    conflict a b = true ↔ teacherOf a = teacherOf b ∨ shareCurriculum a b = true := by
  simp [conflict]

theorem conflict_eq_false_iff {a b : CourseIx I} :
    conflict a b = false ↔ teacherOf a ≠ teacherOf b ∧ shareCurriculum a b = false := by
  simp [conflict]

/-- Courses without a conflict have no curriculum in common. -/
theorem notMem_memberships {a b : CourseIx I} {q : CurriculumIx I} (h : conflict a b = false)
    (ha : q ∈ memberships a) : q ∉ memberships b := by
  intro hb
  have hshare := (conflict_eq_false_iff.1 h).2
  rw [shareCurriculum_of_mem ha hb] at hshare
  cases hshare

theorem conflict_comm (a b : CourseIx I) : conflict a b = conflict b a := by
  simp only [conflict, shareCurriculum_comm a b, eq_comm (a := teacherOf a)]

@[simp]
theorem conflict_self (c : CourseIx I) : conflict c c = true := by simp [conflict]

end Instance

namespace Records

open Instance

/-- The curricula of a numbered course are those whose members hold its number. -/
theorem mem_curricula_numbered {r : Records} {members : List (List Nat)} {c : Course} {n q : Nat} :
    q ∈ (r.numbered members c n).curricula ↔ ∃ ms, members[q]? = some ms ∧ n ∈ ms := by
  simp only [numbered, List.mem_map, List.mem_filter, Prod.exists, exists_eq_right,
    List.mem_zipIdx_iff_getElem?, List.contains_iff_mem]

/-- Records that resolve have a slot and describe a coherent instance. -/
theorem coherent_of_resolve {r : Records} {I : Instance} (h : r.resolve = .ok I) : I.Coherent := by
  have hgrid : ¬(r.days = 0 ∨ r.periods = 0) := by
    have hnil := defects_eq_nil_of_resolve h
    simp only [defects, List.append_eq_nil_iff] at hnil
    intro hd
    simp [gridDefects, hd] at hnil
  have hlink := link?_eq_some_of_resolve h
  simp only [link?] at hlink
  obtain ⟨members, hmembers, hlink⟩ := Option.bind_eq_some_iff.1 hlink
  obtain ⟨unavailable, -, hlink⟩ := Option.bind_eq_some_iff.1 hlink
  obtain ⟨forbidden, -, hlink⟩ := Option.bind_eq_some_iff.1 hlink
  obtain rfl := Option.some.inj hlink
  have hlen : members.length = r.curricula.length := (forall₂_of_mapM hmembers).length_eq.symm
  refine ⟨by simp; omega, by simp; omega, ?_, ?_⟩
  · intro c q hq
    simp only [curriculaOf, course, Fin.getElem_fin, List.getElem_toArray, List.getElem_map,
      mem_curricula_numbered] at hq
    obtain ⟨ms, hms, -⟩ := hq
    obtain ⟨hq, -⟩ := List.getElem?_eq_some_iff.1 hms
    simpa [hlen] using hq
  · intro c q
    have hq : q.val < members.length := by simpa [hlen] using q.isLt
    simp [curriculaOf, course, mem_curricula_numbered, List.getElem?_eq_getElem hq]

/-- Two courses of one curriculum, two rooms and two slots; one course is kept from a slot and the
    other from a room. -/
def pair : Records where
  days := 2
  periods := 1
  courses := [⟨"algebra", "noether", 1, 1, 20, false, [], 0⟩,
    ⟨"optics", "meitner", 1, 1, 20, false, [], 0⟩]
  rooms := [⟨"hall", 30, 0⟩, ⟨"attic", 10, 0⟩]
  curricula := [⟨"physics", ["algebra", "optics"]⟩]
  unavailabilities := [⟨"optics", 0, 0⟩]
  roomConstraints := [⟨"algebra", "attic"⟩]

end Records

/-- What the records of the pair stand for. -/
def Instance.pair : Instance where
  name := ""
  days := 2
  periods := 1
  daily := ⟨0, 0⟩
  courses := #[⟨"algebra", "noether", 1, 1, 20, false, [0], 0⟩,
    ⟨"optics", "meitner", 1, 1, 20, false, [0], 1⟩]
  rooms := #[⟨"hall", 30, 0⟩, ⟨"attic", 10, 0⟩]
  curricula := #[⟨"physics", [0, 1]⟩]
  teachers := #["noether", "meitner"]
  unavailable := ⟨2, #[false, false, true, false]⟩
  forbidden := ⟨2, #[false, true, false, false]⟩

theorem Records.resolve_pair : Records.pair.resolve = .ok Instance.pair := by decide

/-- Two courses whose lectures, and whose days, are too many for 64 bits to add up, and no room. -/
def Records.vast : Records where
  days := 1
  periods := 1
  courses := [⟨"algebra", "noether", 9223372036854775808, 9223372036854775808, 10, false, [], 0⟩,
    ⟨"optics", "meitner", 9223372036854775808, 9223372036854775808, 10, false, [], 0⟩]

/-- What the vast records stand for. -/
def Instance.vast : Instance where
  name := ""
  days := 1
  periods := 1
  daily := ⟨0, 0⟩
  courses := #[⟨"algebra", "noether", 9223372036854775808, 9223372036854775808, 10, false, [], 0⟩,
    ⟨"optics", "meitner", 9223372036854775808, 9223372036854775808, 10, false, [], 1⟩]
  rooms := #[]
  curricula := #[]
  teachers := #["noether", "meitner"]
  unavailable := ⟨1, #[false, false]⟩
  forbidden := ⟨0, #[]⟩

theorem Records.resolve_vast : Records.vast.resolve = .ok Instance.vast := by decide

end Timetabling
