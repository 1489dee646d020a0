import Timetabling.Proofs.Draft.Representation
import Timetabling.Rooming

/-! Drafts on the way to a demand, which is a number of lectures for each course. Some lectures are
    placed and some wait, and `Covers` says that the two together are what is demanded. Placing a
    course takes it off the list of those that wait, and taking one away puts it on the list. -/

namespace Timetabling

open Instance

variable {I : Instance}

/-- The lectures that the course wants. -/
def Instance.wanted (c : CourseIx I) : Nat := (course c).lectures

namespace Draft

open Placement

/-- The lectures of the course that are placed. -/
def lectures (d : Draft I) (c : CourseIx I) : Nat := (d.slotsOf c).length

/-- The tables of the draft tell of one set of placements, such as a draft may keep. -/
def Sound (d : Draft I) : Prop := ∃ P, d.Represents P

/-- The draft is sound, and with the courses that wait it has the lectures that are demanded, no
    fewer and no more. -/
structure Covers (d : Draft I) (waiting : List (CourseIx I)) (demand : CourseIx I → Nat) : Prop where
  sound : d.Sound
  lectures_add : ∀ c, d.lectures c + waiting.count c = demand c

variable {d : Draft I} {P : Finset (Placement I)} {waiting : List (CourseIx I)}
  {demand : CourseIx I → Nat} {c : CourseIx I} {s : Slot I}

/-- At first every lecture waits. -/
theorem covers_empty (h : ∀ c, waiting.count c = demand c) :
    (empty : Draft I).Covers waiting demand :=
  ⟨⟨∅, represents_empty⟩, fun c => by simpa [lectures] using h c⟩

theorem Covers.perm (h : d.Covers waiting demand) {others : List (CourseIx I)}
    (hp : waiting.Perm others) : d.Covers others demand :=
  ⟨h.sound, fun c => by rw [← hp.count_eq]; exact h.lectures_add c⟩

theorem Covers.placed (h : d.Covers (c :: waiting) demand) (hI : I.Coherent)
    (ha : d.admits c s = true) : (d.placed c s).Covers waiting demand := by
  obtain ⟨P, hP⟩ := h.sound
  have hput := hP.put hI ha
  rw [placed_eq_put ha]
  refine ⟨⟨_, hput⟩, ?_⟩
  intro c'
  have hadd := h.lectures_add c'
  rw [lectures, hP.length_slotsOf, List.count_cons] at hadd
  rw [lectures, hput.length_slotsOf, count_insert ((hP.admits_iff hI).1 ha).2.2.notMem]
  simp only [beq_iff_eq] at hadd
  omega

theorem Covers.lifted (h : d.Covers waiting demand) (hs : s ∈ d.slotsOf c) :
    (d.lifted c s).Covers (c :: waiting) demand := by
  obtain ⟨P, hP⟩ := h.sound
  have hc : ⟨c, s⟩ ∈ P := hP.mem_slotsOf.1 hs
  rw [hP.lifted_eq_cut hc]
  refine ⟨⟨_, hP.cut c s⟩, ?_⟩
  intro c'
  have hadd := h.lectures_add c'
  have herase := count_erase hc c'
  rw [lectures, hP.length_slotsOf] at hadd
  rw [lectures, (hP.cut c s).length_slotsOf, List.count_cons]
  simp only [beq_iff_eq]
  omega

/-- What is left after a course was taken away. -/
theorem Sound.mem_slotsOf_lifted (h : d.Sound) (hs : s ∈ d.slotsOf c) {c' : CourseIx I}
    {s' : Slot I} :
    s' ∈ (d.lifted c s).slotsOf c' ↔ s' ∈ d.slotsOf c' ∧ ¬(c' = c ∧ s' = s) := by
  obtain ⟨P, hP⟩ := h
  rw [hP.lifted_eq_cut (hP.mem_slotsOf.1 hs), (hP.cut c s).mem_slotsOf, hP.mem_slotsOf,
    Finset.mem_erase, ne_eq, Placement.mk.injEq, and_comm]

theorem Sound.nodup_slotsOf (h : d.Sound) (c : CourseIx I) : (d.slotsOf c).Nodup := by
  obtain ⟨P, hP⟩ := h
  exact (hP.ascending_slotsOf c).nodup

theorem Sound.mem_placements (h : d.Sound) {p : Placement I} :
    p ∈ d.placements ↔ p.slot ∈ d.slotsOf p.course := by
  obtain ⟨P, hP⟩ := h
  rw [hP.mem_placements, hP.mem_slotsOf]

theorem admits_of_fits (h : d.fits c s = true) : d.admits c s = true := by
  simp only [fits, Bool.and_eq_true] at h
  exact h.1

theorem Represents.lifted (h : d.Represents P) {p : Placement I} (hp : p ∈ P) :
    (d.lifted p.course p.slot).Represents (P.erase p) := by
  rw [h.lifted_eq_cut hp]
  exact h.cut p.course p.slot

/-- A course that fits was not there, and it is there afterwards. -/
theorem Represents.placed_of_fits (h : d.Represents P) (hI : I.Coherent) (hf : d.fits c s = true) :
    ⟨c, s⟩ ∉ P ∧ (d.placed c s).Represents (insert ⟨c, s⟩ P) := by
  have ha := admits_of_fits hf
  rw [placed_eq_put ha]
  exact ⟨((h.admits_iff hI).1 ha).2.2.notMem, h.put hI ha⟩

theorem Covers.placed_of_fits (h : d.Covers (c :: waiting) demand) (hI : I.Coherent)
    (hf : d.fits c s = true) : (d.placed c s).Covers waiting demand :=
  h.placed hI (admits_of_fits hf)

end Draft

end Timetabling
