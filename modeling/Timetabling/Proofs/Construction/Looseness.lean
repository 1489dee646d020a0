import Mathlib.Algebra.Order.BigOperators.Group.Finset
import Timetabling.Proofs.Allotment.Scarcity
import Timetabling.Proofs.Construction.Build
import Timetabling.Proofs.Report.Hard

/-! Instances that are so loose that the first pass succeeds. A slot is lost to a course when the course
    cannot be taught there, when a rival is there already, or when the slot has no room left. However
    the other lectures are placed, rivals hold at most as many slots as they have lectures, and full
    slots are no more than the lectures fill. When these losses together leave a slot, the lecture
    that is pending fits there, so no pass is ever stuck. -/

namespace Timetabling

open Instance

variable {I : Instance}

namespace Instance

/-- The lectures of all courses that cannot be taught at the same time as the course, its own among
    them. -/
def rivalLectures (c : CourseIx I) : Nat :=
  ∑ b : CourseIx I with teacherOf b = teacherOf c ∨ shareCurriculum c b = true, wanted b

/-- For each course with a lecture there are more slots than can be lost to it. -/
def Loose (I : Instance) : Prop := ∀ c : CourseIx I, 0 < wanted c →
  unavailableCount c + (rivalLectures c - 1) + (I.lectureTotal - 1) / I.rooms.size < I.slotCount

end Instance

/-! ### Slots that are lost to a course -/

/-- The slots where the course cannot be taught. -/
def Instance.unavailableSlots (c : CourseIx I) : Finset (Slot I) :=
  Finset.univ.filter fun s => I.isAvailable c s = false

theorem card_unavailableSlots (hwidth : I.unavailable.width = I.slotCount) (c : CourseIx I) :
    (unavailableSlots c).card = unavailableCount c := by
  rw [← Finset.card_image_of_injective _ Fin.val_injective, unavailableCount,
    ← MarkTable.length_markedColumns]
  refine card_eq_length_of_mem_iff Function.injective_id MarkTable.nodup_markedColumns ?_
  intro n
  simp only [unavailableSlots, Finset.mem_image, Finset.mem_filter, Finset.mem_univ, true_and,
    isAvailable, Bool.not_eq_false', List.map_id, MarkTable.mem_markedColumns, hwidth]
  constructor
  · rintro ⟨s, hs, rfl⟩
    exact ⟨s.isLt, hs⟩
  · rintro ⟨hn, hmarked⟩
    exact ⟨⟨n, hn⟩, hmarked, rfl⟩

namespace Placement

variable {P : Finset (Placement I)} {c : CourseIx I} {s : Slot I}

/-- The slots where the set has a rival of the course. -/
def rivalSlots (P : Finset (Placement I)) (c : CourseIx I) : Finset (Slot I) :=
  (P.filter fun p => conflict c p.course = true).image Placement.slot

/-- The slots where the set has as many courses as there are rooms. -/
def fullSlots (P : Finset (Placement I)) : Finset (Slot I) :=
  Finset.univ.filter fun s => I.rooms.size ≤ load P s

/-- The set has no more lectures of any course than are wanted, and fewer of the one course. -/
structure Lacks (P : Finset (Placement I)) (c : CourseIx I) : Prop where
  count_le : ∀ b, count P b ≤ wanted b
  count_lt : count P c < wanted c

theorem card_eq_sum_count (P : Finset (Placement I)) : P.card = ∑ b, count P b :=
  Finset.card_eq_sum_card_fiberwise fun p _ => Finset.mem_univ p.course

theorem card_eq_sum_load (P : Finset (Placement I)) : P.card = ∑ s, load P s :=
  Finset.card_eq_sum_card_fiberwise fun p _ => Finset.mem_univ p.slot

theorem free_of_notMem_rivalSlots (h : s ∉ rivalSlots P c) : Free P c s := by
  intro b hb
  by_contra hconflict
  refine h (Finset.mem_image.2 ⟨⟨b, s⟩, ?_, rfl⟩)
  exact Finset.mem_filter.2 ⟨hb, by simpa using hconflict⟩

theorem load_lt_of_notMem_fullSlots (h : s ∉ fullSlots P) : load P s < I.rooms.size := by
  simpa [fullSlots] using h

theorem card_filter_conflict (P : Finset (Placement I)) (c : CourseIx I) :
    (P.filter fun p => conflict c p.course = true).card = ∑ b with conflict c b = true, count P b := by
  rw [Finset.card_eq_sum_card_fiberwise (f := Placement.course)
    (t := Finset.univ.filter fun b => conflict c b = true)
    (fun p hp => by simpa using (Finset.mem_filter.1 hp).2)]
  refine Finset.sum_congr rfl fun b hb => ?_
  rw [Finset.filter_filter, count]
  congr 1
  refine Finset.filter_congr fun p _ => ?_
  constructor
  · exact And.right
  · rintro rfl
    exact ⟨(Finset.mem_filter.1 hb).2, rfl⟩

namespace Lacks

/-- Among the rivals of a course is the course itself, and it still lacks a lecture. -/
theorem card_rivalSlots_lt (h : Lacks P c) : (rivalSlots P c).card < rivalLectures c := by
  calc (rivalSlots P c).card
      ≤ (P.filter fun p => conflict c p.course = true).card := Finset.card_image_le
    _ = ∑ b with conflict c b = true, count P b := card_filter_conflict P c
    _ < ∑ b with conflict c b = true, wanted b := by
      refine Finset.sum_lt_sum (fun b _ => h.count_le b) ⟨c, ?_, h.count_lt⟩
      simp
    _ = rivalLectures c := by
      simp only [rivalLectures, conflict_eq_true_iff, eq_comm (a := teacherOf c)]

theorem card_lt (h : Lacks P c) : P.card < I.lectureTotal := by
  rw [card_eq_sum_count, I.lectureTotal_eq, tally_finRange]
  exact Finset.sum_lt_sum (fun b _ => h.count_le b) ⟨c, Finset.mem_univ c, h.count_lt⟩

/-- A full slot has a lecture for each room, and one lecture is not placed. -/
theorem card_fullSlots_le (h : Lacks P c) (hrooms : 0 < I.rooms.size) :
    (fullSlots P).card ≤ (I.lectureTotal - 1) / I.rooms.size := by
  rw [Nat.le_div_iff_mul_le hrooms]
  have hcard := h.card_lt
  calc (fullSlots P).card * I.rooms.size
      ≤ ∑ s ∈ fullSlots P, load P s :=
        Finset.card_nsmul_le_sum _ _ _ fun s hs => (Finset.mem_filter.1 hs).2
    _ ≤ ∑ s, load P s := Finset.sum_le_sum_of_subset (Finset.subset_univ _)
    _ = P.card := (card_eq_sum_load P).symm
    _ ≤ I.lectureTotal - 1 := by omega

/-- In a loose instance some slot is not lost to a course that lacks a lecture. -/
theorem exists_slot (h : Lacks P c) (hloose : I.Loose)
    (hwidth : I.unavailable.width = I.slotCount) (hrooms : 0 < I.rooms.size) :
    ∃ s, load P s < I.rooms.size ∧ I.isAvailable c s = true ∧ Free P c s := by
  have hlost : (unavailableSlots c ∪ rivalSlots P c ∪ fullSlots P).card < I.slotCount := by
    have hunavailable := card_unavailableSlots hwidth c
    have hrival := h.card_rivalSlots_lt
    have hfull := h.card_fullSlots_le hrooms
    have hleft := hloose c (Nat.zero_lt_of_lt h.count_lt)
    have hunion := Finset.card_union_le (unavailableSlots c ∪ rivalSlots P c) (fullSlots P)
    have hunion' := Finset.card_union_le (unavailableSlots c) (rivalSlots P c)
    omega
  obtain ⟨s, -, hs⟩ := Finset.exists_mem_notMem_of_card_lt_card
    (s := unavailableSlots c ∪ rivalSlots P c ∪ fullSlots P) (t := Finset.univ)
    (by simpa using hlost)
  simp only [Finset.mem_union, not_or] at hs
  refine ⟨s, load_lt_of_notMem_fullSlots hs.2, ?_, free_of_notMem_rivalSlots hs.1.2⟩
  simpa [unavailableSlots] using hs.1.1

end Lacks

end Placement

/-! ### No pass is stuck -/

theorem Draft.Covers.lacks {d : Draft I} {P : Finset (Placement I)} {c : CourseIx I}
    {cs : List (CourseIx I)} (h : d.Covers (c :: cs) wanted) (hP : d.Represents P) :
    Placement.Lacks P c where
  count_le b := by
    have hadd := h.lectures_add b
    rw [Draft.lectures, hP.length_slotsOf] at hadd
    omega
  count_lt := by
    have hadd := h.lectures_add c
    rw [Draft.lectures, hP.length_slotsOf, List.count_cons_self] at hadd
    omega

namespace Pass

variable {p q : Pass I}

/-- What is placed and what is pending are together the lectures that are wanted. -/
def Balanced (p : Pass I) : Prop := p.draft.Covers p.pending wanted

theorem balanced_start (hard : Difficulty) (w : SlotWalk I.slotCount) :
    (start hard w).Balanced :=
  Draft.covers_empty (count_pendingLectures hard)

theorem Stop.balanced (h : Stop p q) (hI : I.Coherent) (hp : p.Balanced) : q.Balanced := by
  cases h with
  | @place w d c cs s first => exact hp.fill_placed hI (List.find?_some first) w.position

theorem balanced_of_stops (h : Relation.ReflTransGen Stop p q) (hI : I.Coherent)
    (hp : p.Balanced) : q.Balanced := by
  induction h with
  | refl => exact hp
  | tail _ hstop ih => exact hstop.balanced hI ih

end Pass

section

variable (hI : I.Coherent) (hwidth : I.unavailable.width = I.slotCount)
  (hsuitable : ∀ (c : CourseIx I) (x : RoomIx I), I.isSuitable c x = true)
  (hrooms : 0 < I.rooms.size) (hloose : I.Loose)

include hI hwidth hsuitable hrooms hloose

theorem Pass.Balanced.not_stuckAt {p : Pass I} (h : p.Balanced) (c : CourseIx I) :
    ¬p.StuckAt c := by
  rintro ⟨hhead, hfits⟩
  obtain ⟨cs, hpending⟩ := List.head?_eq_some_iff.1 hhead
  have hcovers : p.draft.Covers (c :: cs) wanted := hpending ▸ h
  obtain ⟨P, hP⟩ := hcovers.sound
  obtain ⟨s, hload, havailable, hfree⟩ :=
    (hcovers.lacks hP).exists_slot hloose hwidth hrooms
  have hadmits := (hP.admits_iff hI).2 ⟨hload, havailable, hfree⟩
  rw [← p.draft.fits_eq_admits hsuitable, Draft.fitsMeeting_eq_false_iff.1 hfits s] at hadmits
  cases hadmits

/-- In a loose instance a pass succeeds whatever the difficulties are and wherever the walk leads. -/
theorem exists_buildOnce_of_loose (hard : Difficulty) {w : SlotWalk I.slotCount}
    (hw : w.Thorough) : ∃ t, buildOnce hard w = .ok t := by
  cases hbuilt : buildOnce hard w with
  | ok t => exact ⟨t, rfl⟩
  | error c =>
    obtain ⟨q, hstops, hstuck⟩ := (buildOnce_eq_error_iff hI hw).1 hbuilt
    have hbalanced := Pass.balanced_of_stops hstops hI (Pass.balanced_start hard w)
    exact absurd hstuck (hbalanced.not_stuckAt hI hwidth hsuitable hrooms hloose c)

end

/-! ### Success at once -/

theorem width_unavailable_of_resolve {r : Records} {I : Instance} (h : r.resolve = .ok I) :
    I.unavailable.width = I.slotCount := by
  obtain ⟨_, _, _, -, -, -, rfl⟩ :=
    Records.link?_eq_some_iff.1 (Records.link?_eq_some_of_resolve h)
  rfl

theorem isSuitable_of_no_constraint {r : Records} {I : Instance} (h : r.resolve = .ok I)
    (hnone : r.roomConstraints = []) (c : CourseIx I) (x : RoomIx I) : I.isSuitable c x = true := by
  by_contra hx
  have hmem := (isSuitable_iff_of_resolve h c x).1 (Bool.eq_false_of_not_eq_true hx)
  rw [hnone] at hmem
  cases hmem

/-- How a build succeeds without a restart: there is nothing to place, or the pass along the first
    walk that it draws gives the timetable. -/
inductive AtOnce (I : Instance) {σ : Type} [WordSource σ] (s : σ) : Timetable I → σ → Prop
  | nothing (nothing : I.lectureCount = 0) : AtOnce I s .empty s
  | first {w : SlotWalk I.slotCount} {t : Timetable I} {s' : σ} (lecture : I.lectureCount ≠ 0)
      (draws : (SlotWalk.random I.slotCount).run s = some (w, s'))
      (built : buildOnce (Difficulty.initial I) w = .ok t) : AtOnce I s t s'

theorem AtOnce.lodged {σ : Type} [WordSource σ] {s s' : σ} {t : Timetable I} (h : AtOnce I s t s')
    (hI : I.Coherent) : t.Lodged sought := by
  cases h with
  | nothing nothing => exact lodged_empty nothing
  | first lecture _ built =>
    rw [sought_of_ne_zero lecture]
    exact lodged_of_buildOnce hI built

theorem exists_run_build_of_loose {r : Records} {I : Instance} (h : r.resolve = .ok I)
    (hnone : r.roomConstraints = []) (hrooms : 0 < I.rooms.size) (hloose : I.Loose) {σ : Type}
    [WordSource σ] (limit : Nat) (s : σ) :
    ∃ t s', (build I limit).run s = some (.ok t, s') ∧ AtOnce I s t s' := by
  have hI := Records.coherent_of_resolve h
  by_cases hlectures : I.lectureCount = 0
  · refine ⟨.empty, s, ?_, .nothing hlectures⟩
    rw [build, if_pos hlectures]
    rfl
  · have hplaces : ¬(I.slotCount = 0 ∨ I.rooms.size = 0) := by
      have hslots := hI.slotCount_pos
      omega
    obtain ⟨w, s', hdraws, hw⟩ := SlotWalk.gives_random hI.slotCount_pos s
    obtain ⟨t, hbuilt⟩ := exists_buildOnce_of_loose hI (width_unavailable_of_resolve h)
      (isSuitable_of_no_constraint h hnone) hrooms hloose (Difficulty.initial I) hw
    refine ⟨t, s', ?_, .first hlectures hdraws hbuilt⟩
    simp only [build, if_neg hlectures, if_neg hplaces, StateT.run_bind,
      run_buildWithin_of_ok hdraws hbuilt]
    rfl

/-- Three courses on four slots with two rooms. -/
def Records.roomy : Records where
  days := 2
  periods := 2
  courses := [⟨"algebra", "noether", 2, 1, 20, false, [], 0⟩,
    ⟨"optics", "meitner", 1, 1, 20, false, [], 0⟩, ⟨"logic", "peter", 1, 1, 20, false, [], 0⟩]
  rooms := [⟨"hall", 30, 0⟩, ⟨"attic", 10, 0⟩]
  curricula := [⟨"physics", ["algebra", "optics"]⟩]
  unavailabilities := [⟨"logic", 0, 0⟩, ⟨"logic", 1, 1⟩]

/-- What the records of the roomy grid stand for. -/
def Instance.roomy : Instance where
  name := ""
  days := 2
  periods := 2
  daily := ⟨0, 0⟩
  courses := #[⟨"algebra", "noether", 2, 1, 20, false, [0], 0⟩,
    ⟨"optics", "meitner", 1, 1, 20, false, [0], 1⟩, ⟨"logic", "peter", 1, 1, 20, false, [], 2⟩]
  rooms := #[⟨"hall", 30, 0⟩, ⟨"attic", 10, 0⟩]
  curricula := #[⟨"physics", [0, 1]⟩]
  teachers := #["noether", "meitner", "peter"]
  unavailable := ⟨4, #[false, false, false, false, false, false, false, false, true, false, false,
    true]⟩
  forbidden := ⟨2, #[false, false, false, false, false, false]⟩

theorem Records.resolve_roomy : Records.roomy.resolve = .ok Instance.roomy := by decide

theorem loose_roomy : roomy.Loose := by
  unfold Loose
  decide

end Timetabling
