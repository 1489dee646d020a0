import Timetabling.Proofs.Draft.Representation

/-! Drafts that come about by changes. Whatever is asked of a draft that began empty, course, day and
    period existing or not, it represents a set of placements, and all that can be asked about it is
    answered from that set. -/

namespace Timetabling

open Instance

variable {I : Instance}

/-- A change that is asked for, of a meeting by plain numbers. -/
inductive Edit (meeting : Type) where
  | add (m : meeting)
  | remove (m : meeting)
  | replace (m : meeting)
  deriving DecidableEq, Repr

/-- The order of slots and, at one slot, of courses. -/
def Placement.Before (p q : Placement I) : Prop :=
  p.slot < q.slot ∨ p.slot = q.slot ∧ p.course < q.course

namespace Draft

open Placement

/-- The draft after a change was asked for, granted or not. -/
def edit (d : Draft I) : Edit Meeting → Draft I
  | .add m => (d.add? m).getD d
  | .remove m => (d.remove? m).getD d
  | .replace m => (d.replace m).outcome

/-- The draft after changes of an empty one. -/
def ofEdits (es : List (Edit Meeting)) : Draft I := es.foldl edit empty

/-- What is told about the draft is told of the set of placements. -/
structure Answers (d : Draft I) (P : Finset (Placement I)) : Prop where
  find?_eq_some_iff : ∀ {m p}, d.find? m = some p ↔ p ∈ P ∧ p.meeting = m
  mem_placements : ∀ {p}, p ∈ d.placements ↔ p ∈ P
  placements_ordered : d.placements.Pairwise Placement.Before
  mem_placementsOf : ∀ {c p}, p ∈ d.placementsOf c ↔ p ∈ P ∧ p.course = c
  placementsOf_ordered : ∀ c, (d.placementsOf c).Pairwise fun p q => p.slot < q.slot
  size_eq : d.size = P.card
  sameCurriculum_iff : ∀ {m}, d.sameCurriculum m = true ↔ ∃ p : Placement I, p.meeting = m ∧
    ∃ b, ⟨b, p.slot⟩ ∈ P ∧ shareCurriculum p.course b = true
  sameTeacher_iff : ∀ {m}, d.sameTeacher m = true ↔ ∃ p : Placement I, p.meeting = m ∧
    ∃ b, ⟨b, p.slot⟩ ∈ P ∧ teacherOf b = teacherOf p.course

variable {d : Draft I} {P : Finset (Placement I)}

/-! ### One change -/

theorem Represents.exists_add (h : d.Represents P) (hI : I.Coherent) (m : Meeting) :
    ∃ Q, ((d.add? m).getD d).Represents Q := by
  cases hm : m.placement? I with
  | none => exact ⟨P, by simpa [add?, hm] using h⟩
  | some p =>
    have hadd : (d.add? m).getD d = d.placed p.course p.slot := by simp [add?, hm, placed]
    cases ha : d.admits p.course p.slot with
    | true => exact ⟨_, by rw [hadd, placed_eq_put ha]; exact h.put hI ha⟩
    | false => exact ⟨P, by rw [hadd, placed_eq_self ha]; exact h⟩

theorem Represents.exists_remove (h : d.Represents P) (m : Meeting) :
    ∃ Q, ((d.remove? m).getD d).Represents Q := by
  cases hm : m.placement? I with
  | none => exact ⟨P, by simpa [remove?, hm] using h⟩
  | some p =>
    have hremove : (d.remove? m).getD d = d.lifted p.course p.slot := by
      simp [remove?, hm, lifted]
    by_cases hp : ⟨p.course, p.slot⟩ ∈ P
    · exact ⟨_, by rw [hremove, h.lifted_eq_cut hp]; exact h.cut ..⟩
    · exact ⟨P, by rw [hremove, h.lifted_eq_self hp]; exact h⟩

theorem Represents.exists_takeOver (h : d.Represents P) (hI : I.Coherent) (c : CourseIx I)
    (s : Slot I) : ∃ Q, (d.takeOver c s).outcome.Represents Q := by
  rcases h.takeOver_cases hI c s with ⟨ha, he⟩ | ⟨old, -, ha, he⟩ | ⟨-, -, he⟩ <;> rw [he]
  · exact ⟨_, h.put hI ha⟩
  · exact ⟨_, (h.cut old s).put hI ha⟩
  · exact ⟨P, h⟩

theorem Represents.exists_edit (h : d.Represents P) (hI : I.Coherent) (e : Edit Meeting) :
    ∃ Q, (d.edit e).Represents Q := by
  cases e with
  | add m => exact h.exists_add hI m
  | remove m => exact h.exists_remove m
  | replace m =>
    simp only [edit, replace]
    cases m.placement? I with
    | none => exact ⟨P, h⟩
    | some p => exact h.exists_takeOver hI p.course p.slot

theorem exists_represents (hI : I.Coherent) (es : List (Edit Meeting)) :
    ∃ P : Finset (Placement I), (ofEdits es).Represents P := by
  induction es using List.reverseRecOn with
  | nil => exact ⟨∅, represents_empty⟩
  | append_singleton es e ih =>
    obtain ⟨P, hP⟩ := ih
    simpa [ofEdits, List.foldl_append] using hP.exists_edit hI e

/-! ### What is answered -/

theorem Keeps.placements_ordered (h : d.Keeps P) : d.placements.Pairwise Placement.Before := by
  refine List.pairwise_flatMap.2 ⟨?_, ?_⟩
  · intro s _
    exact List.pairwise_map.2 ((h.ascending_coursesAt s).imp fun hlt => .inr ⟨rfl, hlt⟩)
  · refine (List.pairwise_lt_finRange _).imp fun hlt p hp q hq => .inl ?_
    obtain ⟨_, -, rfl⟩ := List.mem_map.1 hp
    obtain ⟨_, -, rfl⟩ := List.mem_map.1 hq
    exact hlt

theorem Keeps.answers (h : d.Keeps P) (hI : I.Coherent) : d.Answers P where
  find?_eq_some_iff {m p} := by
    simp only [find?, Option.filter_eq_some_iff, Meeting.placement?_eq_some_iff, List.contains_iff_mem,
      h.mem_slotsOf]
    exact and_comm
  mem_placements := h.mem_placements
  placements_ordered := h.placements_ordered
  mem_placementsOf {c p} := by
    cases p with | mk c' s =>
    simp only [placementsOf, List.mem_map, h.mem_slotsOf, Placement.mk.injEq]
    constructor
    · rintro ⟨_, hp, rfl, rfl⟩
      exact ⟨hp, rfl⟩
    · rintro ⟨hp, rfl⟩
      exact ⟨s, hp, rfl, rfl⟩
  placementsOf_ordered c := List.pairwise_map.2 (h.ascending_slotsOf c)
  size_eq := h.size_eq
  sameCurriculum_iff := by
    simp only [sameCurriculum, Option.any_eq_true, Meeting.placement?_eq_some_iff,
      h.curriculumTaken_iff hI, implies_true]
  sameTeacher_iff := by
    simp only [sameTeacher, Option.any_eq_true, Meeting.placement?_eq_some_iff,
      h.teacherTaken_iff, implies_true]

/-- A draft that came about by changes represents a set of placements, and tells of it. -/
theorem ofEdits_represents {r : Records} {I : Instance} (h : r.resolve = .ok I)
    (es : List (Edit Meeting)) :
    ∃ P : Finset (Placement I), (ofEdits es).Represents P ∧ (ofEdits es).Answers P := by
  have hI := Records.coherent_of_resolve h
  obtain ⟨P, hP⟩ := exists_represents hI es
  exact ⟨P, hP, hP.answers hI⟩

/-- The second course takes the place of the first, is then refused at the other slot, where it is not
    available, and the last change finds nothing to remove. -/
theorem ofEdits_represents_pair : ∃ P : Finset (Placement pair),
    P = {⟨⟨1, by decide⟩, ⟨1, by decide⟩⟩} ∧
      (ofEdits [.add ⟨0, 1, 0⟩, .replace ⟨1, 1, 0⟩, .add ⟨1, 0, 0⟩, .remove ⟨0, 9, 9⟩]).Represents P ∧
      (ofEdits [.add ⟨0, 1, 0⟩, .replace ⟨1, 1, 0⟩, .add ⟨1, 0, 0⟩, .remove ⟨0, 9, 9⟩]).Answers P := by
  obtain ⟨P, hP, hanswers⟩ := ofEdits_represents Records.resolve_pair
    [.add ⟨0, 1, 0⟩, .replace ⟨1, 1, 0⟩, .add ⟨1, 0, 0⟩, .remove ⟨0, 9, 9⟩]
  have hplacements : (ofEdits [.add ⟨0, 1, 0⟩, .replace ⟨1, 1, 0⟩, .add ⟨1, 0, 0⟩, .remove ⟨0, 9, 9⟩] :
      Draft pair).placements = [⟨⟨1, by decide⟩, ⟨1, by decide⟩⟩] := by decide
  refine ⟨P, Finset.ext fun p => ?_, hP, hanswers⟩
  rw [← hP.mem_placements, hplacements, List.mem_singleton, Finset.mem_singleton]

end Draft

end Timetabling
