import Mathlib.Algebra.BigOperators.Fin
import Timetabling.Draft
import Timetabling.Proofs.Instance.Coherence

/-! The three tables of a draft tell of one set of placements. `Keeps` says so of a draft and a set,
    `Allowed` says which sets may be kept, and `Represents` is both together. Putting a course at a
    slot adds a member to the set and cutting it away removes one, and the tables are determined by
    the set. -/

namespace Timetabling

open Instance

variable {I : Instance}

theorem Ascending.nodup {α : Type} {key : α → Nat} {xs : List α} (h : Ascending key xs) :
    xs.Nodup :=
  h.imp fun hlt e => absurd hlt (by simp [e])

/-- Two lists that ascend by one injective key and have the same members are equal. -/
theorem Ascending.eq_of_mem_iff {α : Type} {key : α → Nat} {xs ys : List α}
    (hx : Ascending key xs) (hy : Ascending key ys) (h : ∀ a, a ∈ xs ↔ a ∈ ys) : xs = ys :=
  ((List.perm_ext_iff_of_nodup hx.nodup hy.nodup).2 h).eq_of_pairwise
    (fun _ _ _ _ hlt hgt => absurd hlt (Nat.lt_asymm hgt)) hx hy

/-- A finite set has as many members as a list without repetitions that lists them through an
    injective map. -/
theorem card_eq_length_of_mem_iff {α β : Type} [DecidableEq β] {f : α → β}
    (hf : Function.Injective f) {xs : List α} (hx : xs.Nodup) {Q : Finset β}
    (h : ∀ b, b ∈ Q ↔ b ∈ xs.map f) : Q.card = xs.length := by
  have hQ : Q = (xs.map f).toFinset := Finset.ext fun b => by rw [h, List.mem_toFinset]
  rw [hQ, List.toFinset_card_of_nodup (hx.map hf), List.length_map]

/-- A set and a list that lists its members, none of them twice, are both empty, both have one member, or
    both have more. -/
theorem listing_cases {α : Type} [DecidableEq α] {xs : List α} (hx : xs.Nodup) {S : Finset α}
    (h : ∀ a, a ∈ S ↔ a ∈ xs) : (S = ∅ ∧ xs = []) ∨ (∃ a, S = {a} ∧ xs = [a]) ∨
      (1 < S.card ∧ ∃ a b ys, xs = a :: b :: ys) := by
  obtain rfl : S = xs.toFinset := Finset.ext fun a => by rw [h, List.mem_toFinset]
  rcases xs with - | ⟨a, - | ⟨b, ys⟩⟩
  · exact .inl ⟨rfl, rfl⟩
  · exact .inr (.inl ⟨a, rfl, rfl⟩)
  · refine .inr (.inr ⟨?_, a, b, ys, rfl⟩)
    rw [List.toFinset_card_of_nodup hx]
    simp only [List.length_cons]
    omega

/-- A new element counts when it has the property. -/
theorem card_filter_insert {α : Type} [DecidableEq α] {S : Finset α} {a : α} (ha : a ∉ S)
    (p : α → Prop) [DecidablePred p] :
    ((insert a S).filter p).card = (S.filter p).card + if p a then 1 else 0 := by
  rw [Finset.filter_insert]
  split
  · exact Finset.card_insert_of_notMem fun h => ha (Finset.mem_filter.1 h).1
  · rfl

theorem tally_eq_sum_map {α : Type} (count : α → Nat) (xs : List α) :
    tally count xs = (xs.map count).sum := by
  induction xs with
  | nil => rfl
  | cons x xs ih => rw [tally_cons, ih, List.map_cons, List.sum_cons]

theorem tally_finRange {n : Nat} (count : Fin n → Nat) :
    tally count (List.finRange n) = ∑ i, count i := by
  rw [tally_eq_sum_map, Fin.sum_univ_def]

/-! ### Sets of placements -/

namespace Placement

/-- No member of the set is at the slot together with a course that conflicts with it. -/
def Free (P : Finset (Placement I)) (c : CourseIx I) (s : Slot I) : Prop :=
  ∀ b, ⟨b, s⟩ ∈ P → conflict c b = false

/-- The courses that the set has at the slot in the way of `c`: those of its teacher and those with a
    curriculum in common. -/
def hindrances (P : Finset (Placement I)) (c : CourseIx I) (s : Slot I) : Finset (CourseIx I) :=
  Finset.univ.filter fun b => ⟨b, s⟩ ∈ P ∧ (teacherOf b = teacherOf c ∨ shareCurriculum c b = true)

/-- The number of courses that the set has at the slot. -/
def load (P : Finset (Placement I)) (s : Slot I) : Nat := (P.filter fun p => p.slot = s).card

/-- The number of slots that the set has for the course. -/
def count (P : Finset (Placement I)) (c : CourseIx I) : Nat := (P.filter fun p => p.course = c).card

/-- What a draft asks of the placements that it keeps: two courses at one slot share neither their
    teacher nor a curriculum, there is a room for each, and each is available. -/
structure Allowed (P : Finset (Placement I)) : Prop where
  conflict_eq_false : ∀ {a b s}, ⟨a, s⟩ ∈ P → ⟨b, s⟩ ∈ P → a ≠ b → conflict a b = false
  load_le : ∀ s, load P s ≤ I.rooms.size
  available : ∀ {p}, p ∈ P → I.isAvailable p.course p.slot = true

variable {P Q : Finset (Placement I)} {c : CourseIx I} {s : Slot I}

theorem Free.notMem (h : Free P c s) : ⟨c, s⟩ ∉ P := fun hmem => by simpa using h c hmem

theorem mem_hindrances {b : CourseIx I} : b ∈ hindrances P c s ↔ ⟨b, s⟩ ∈ P ∧ conflict c b = true := by
  simp [hindrances, conflict_eq_true_iff, eq_comm (a := teacherOf b)]

theorem free_iff_hindrances : Free P c s ↔ hindrances P c s = ∅ := by
  simp [Finset.eq_empty_iff_forall_notMem, mem_hindrances, Free]

theorem mem_of_hindrances_eq {old : CourseIx I} (hone : hindrances P c s = {old}) : ⟨old, s⟩ ∈ P :=
  (mem_hindrances.1 (hone ▸ Finset.mem_singleton_self old)).1

theorem allowed_empty : Allowed (∅ : Finset (Placement I)) := by
  constructor <;> simp [load]

theorem Allowed.mono (h : Allowed P) (hQ : Q ⊆ P) : Allowed Q where
  conflict_eq_false ha hb := h.conflict_eq_false (hQ ha) (hQ hb)
  load_le s := (Finset.card_le_card (Finset.filter_subset_filter _ hQ)).trans (h.load_le s)
  available hp := h.available (hQ hp)

theorem load_insert (hc : ⟨c, s⟩ ∉ P) (s' : Slot I) :
    load (insert ⟨c, s⟩ P) s' = load P s' + if s = s' then 1 else 0 :=
  card_filter_insert hc _

theorem load_erase (hc : ⟨c, s⟩ ∈ P) : load (P.erase ⟨c, s⟩) s + 1 = load P s := by
  have h := load_insert (Finset.notMem_erase ⟨c, s⟩ P) s
  rw [Finset.insert_erase hc, if_pos rfl] at h
  exact h.symm

theorem count_insert (hc : ⟨c, s⟩ ∉ P) (c' : CourseIx I) :
    count (insert ⟨c, s⟩ P) c' = count P c' + if c = c' then 1 else 0 :=
  card_filter_insert hc _

theorem count_erase (hc : ⟨c, s⟩ ∈ P) (c' : CourseIx I) :
    (count (P.erase ⟨c, s⟩) c' + if c = c' then 1 else 0) = count P c' := by
  have h := count_insert (Finset.notMem_erase ⟨c, s⟩ P) c'
  rw [Finset.insert_erase hc] at h
  exact h.symm

theorem Allowed.insert (h : Allowed P) (hfree : Free P c s) (hload : load P s < I.rooms.size)
    (hav : I.isAvailable c s = true) : Allowed (insert ⟨c, s⟩ P) where
  conflict_eq_false {a b s'} ha hb hne := by
    simp only [Finset.mem_insert, mk.injEq] at ha hb
    rcases ha with ⟨rfl, rfl⟩ | ha
    · rcases hb with ⟨rfl, -⟩ | hb
      · exact absurd rfl hne
      · exact hfree b hb
    · rcases hb with ⟨rfl, rfl⟩ | hb
      · rw [conflict_comm]
        exact hfree a ha
      · exact h.conflict_eq_false ha hb hne
  load_le s' := by
    rw [load_insert hfree.notMem]
    split
    · subst s'
      exact hload
    · exact h.load_le s'
  available hp := by
    rcases Finset.mem_insert.1 hp with rfl | hp
    · exact hav
    · exact h.available hp

end Placement

namespace Draft

open Placement

/-- The draft keeps the placements in the set and no others, in all of its tables. -/
structure Keeps (d : Draft I) (P : Finset (Placement I)) : Prop where
  mem_coursesAt : ∀ {c s}, c ∈ d.coursesAt s ↔ ⟨c, s⟩ ∈ P
  ascending_coursesAt : ∀ s, Ascending Fin.val (d.coursesAt s)
  mem_slotsOf : ∀ {c s}, s ∈ d.slotsOf c ↔ ⟨c, s⟩ ∈ P
  ascending_slotsOf : ∀ c, Ascending Fin.val (d.slotsOf c)
  courseOf?_eq_some_iff : ∀ {q s c}, d.courseOf? q s = some c ↔ ⟨c, s⟩ ∈ P ∧ q ∈ memberships c

/-- The draft keeps the placements in the set, and they are such as a draft may keep. -/
structure Represents (d : Draft I) (P : Finset (Placement I)) : Prop extends
  Keeps d P, Allowed P

variable {d e : Draft I} {P : Finset (Placement I)} {c : CourseIx I} {s : Slot I}

/-! ### What the tables say -/

/-- The set determines the draft, whatever happened to it before. -/
theorem Keeps.unique (hd : d.Keeps P) (he : e.Keeps P) : d = e := by
  apply ext_views
  · intro q s
    ext c
    rw [hd.courseOf?_eq_some_iff, he.courseOf?_eq_some_iff]
  · intro s
    refine (hd.ascending_coursesAt s).eq_of_mem_iff (he.ascending_coursesAt s) ?_
    intro c
    rw [hd.mem_coursesAt, he.mem_coursesAt]
  · intro c
    refine (hd.ascending_slotsOf c).eq_of_mem_iff (he.ascending_slotsOf c) ?_
    intro s
    rw [hd.mem_slotsOf, he.mem_slotsOf]

theorem Keeps.mem_placements (h : d.Keeps P) {p : Placement I} : p ∈ d.placements ↔ p ∈ P := by
  rw [Draft.mem_placements, h.mem_coursesAt]

theorem Keeps.length_coursesAt (h : d.Keeps P) (s : Slot I) :
    (d.coursesAt s).length = load P s := by
  have hinj : Function.Injective fun c => (⟨c, s⟩ : Placement I) := fun _ _ e => by simpa using e
  symm
  apply card_eq_length_of_mem_iff hinj (h.ascending_coursesAt s).nodup
  rintro ⟨c, s'⟩
  by_cases hs : s' = s
  · subst hs
    simp [h.mem_coursesAt]
  · simp [hs, Ne.symm hs]

theorem Keeps.length_slotsOf (h : d.Keeps P) (c : CourseIx I) :
    (d.slotsOf c).length = count P c := by
  have hinj : Function.Injective fun s => (⟨c, s⟩ : Placement I) := fun _ _ e => by simpa using e
  symm
  apply card_eq_length_of_mem_iff hinj (h.ascending_slotsOf c).nodup
  rintro ⟨c', s⟩
  by_cases hc : c' = c
  · subst hc
    simp [h.mem_slotsOf]
  · simp [hc, Ne.symm hc]

theorem Keeps.size_eq (h : d.Keeps P) : d.size = P.card := by
  simp only [size, tally_finRange, h.length_slotsOf, count]
  exact (Finset.card_eq_sum_card_fiberwise fun p _ => Finset.mem_univ p.course).symm

theorem Keeps.teacherTaken_iff (h : d.Keeps P) :
    d.teacherTaken c s = true ↔ ∃ b, ⟨b, s⟩ ∈ P ∧ teacherOf b = teacherOf c := by
  simp [teacherTaken, h.mem_coursesAt]

theorem Keeps.curriculumTaken_iff (h : d.Keeps P) (hI : I.Coherent) :
    d.curriculumTaken c s = true ↔ ∃ b, ⟨b, s⟩ ∈ P ∧ shareCurriculum c b = true := by
  simp only [curriculumTaken, List.any_eq_true, Option.isSome_iff_exists, h.courseOf?_eq_some_iff,
    hI.shareCurriculum_iff]
  constructor
  · rintro ⟨q, hc, b, hb, hq⟩
    exact ⟨b, hb, q, hc, hq⟩
  · rintro ⟨b, hb, q, hc, hq⟩
    exact ⟨q, hc, b, hb, hq⟩

theorem Keeps.admits_iff (h : d.Keeps P) (hI : I.Coherent) :
    d.admits c s = true ↔
      load P s < I.rooms.size ∧ I.isAvailable c s = true ∧ Free P c s := by
  have hfree : Free P c s ↔ d.curriculumTaken c s = false ∧ d.teacherTaken c s = false := by
    simp only [← Bool.not_eq_true, h.curriculumTaken_iff hI, h.teacherTaken_iff, Free,
      conflict_eq_true_iff, not_exists, not_and, not_or, ← forall_and]
    exact forall_congr' fun b => forall_congr' fun _ => by
      rw [and_comm, eq_comm (a := teacherOf b)]
  simp [admits, h.length_coursesAt, hfree, and_assoc]

/-! ### What the changes do to the set -/

theorem keeps_empty : (empty : Draft I).Keeps ∅ := by
  constructor <;> simp [Ascending]

theorem Keeps.put (h : d.Keeps P) (hfree : Free P c s) : (d.put c s).Keeps (insert ⟨c, s⟩ P) where
  mem_coursesAt {c' s'} := by
    rw [coursesAt_put]
    split <;> simp_all [h.mem_coursesAt]
  ascending_coursesAt s' := by
    rw [coursesAt_put]
    split
    · refine (h.ascending_coursesAt s).insertAscending fun b hb e => hfree.notMem ?_
      rwa [← Fin.ext e, ← h.mem_coursesAt]
    · exact h.ascending_coursesAt s'
  mem_slotsOf {c' s'} := by
    rw [slotsOf_put]
    split <;> simp_all [h.mem_slotsOf]
  ascending_slotsOf c' := by
    rw [slotsOf_put]
    split
    · refine (h.ascending_slotsOf c).insertAscending fun t ht e => hfree.notMem ?_
      rwa [← Fin.ext e, ← h.mem_slotsOf]
    · exact h.ascending_slotsOf c'
  courseOf?_eq_some_iff {q s' b} := by
    rw [courseOf?_put]
    by_cases hq : q ∈ memberships c ∧ s' = s
    · obtain ⟨hq, rfl⟩ := hq
      rw [if_pos ⟨hq, rfl⟩, Option.some.injEq, Finset.mem_insert]
      constructor
      · rintro rfl
        exact ⟨.inl rfl, hq⟩
      · -- another course of the curriculum at the slot would conflict with `c`
        rintro ⟨he | hb, hqb⟩
        · exact (Placement.mk.inj he).1.symm
        · exact absurd hqb (notMem_memberships (hfree b hb) hq)
    · rw [if_neg hq, h.courseOf?_eq_some_iff, Finset.mem_insert]
      constructor
      · rintro ⟨hb, hqb⟩
        exact ⟨.inr hb, hqb⟩
      · rintro ⟨he | hb, hqb⟩
        · obtain ⟨rfl, rfl⟩ := Placement.mk.inj he
          exact absurd ⟨hqb, rfl⟩ hq
        · exact ⟨hb, hqb⟩

theorem Keeps.cut (h : d.Keeps P) (c : CourseIx I) (s : Slot I) :
    (d.cut c s).Keeps (P.erase ⟨c, s⟩) where
  mem_coursesAt {c' s'} := by
    rw [coursesAt_cut]
    split
    · simp_all [(h.ascending_coursesAt s).nodup.mem_erase_iff, h.mem_coursesAt]
    · simp_all [h.mem_coursesAt]
  ascending_coursesAt s' := by
    rw [coursesAt_cut]
    split
    · exact (h.ascending_coursesAt s).erase c
    · exact h.ascending_coursesAt s'
  mem_slotsOf {c' s'} := by
    rw [slotsOf_cut]
    split
    · simp_all [(h.ascending_slotsOf c).nodup.mem_erase_iff, h.mem_slotsOf]
    · simp_all [h.mem_slotsOf]
  ascending_slotsOf c' := by
    rw [slotsOf_cut]
    split
    · exact (h.ascending_slotsOf c).erase s
    · exact h.ascending_slotsOf c'
  courseOf?_eq_some_iff {q s' b} := by
    rw [courseOf?_cut]
    by_cases hq : q ∈ memberships c ∧ s' = s ∧ d.courseOf? q s = some c
    · obtain ⟨hq, rfl, hcell⟩ := hq
      rw [if_pos ⟨hq, rfl, hcell⟩]
      refine iff_of_false nofun ?_
      rintro ⟨hb, hqb⟩
      obtain ⟨hne, hb⟩ := Finset.mem_erase.1 hb
      have hcell' := h.courseOf?_eq_some_iff.2 ⟨hb, hqb⟩
      rw [hcell] at hcell'
      exact hne (by rw [Option.some.inj hcell'])
    · rw [if_neg hq, h.courseOf?_eq_some_iff, Finset.mem_erase]
      constructor
      · rintro ⟨hb, hqb⟩
        refine ⟨⟨?_, hb⟩, hqb⟩
        intro he
        obtain ⟨rfl, rfl⟩ := Placement.mk.inj he
        exact hq ⟨hqb, rfl, h.courseOf?_eq_some_iff.2 ⟨hb, hqb⟩⟩
      · rintro ⟨⟨-, hb⟩, hqb⟩
        exact ⟨hb, hqb⟩

theorem represents_empty : (empty : Draft I).Represents ∅ := ⟨keeps_empty, allowed_empty⟩

theorem Represents.put (h : d.Represents P) (hI : I.Coherent) (ha : d.admits c s = true) :
    (d.put c s).Represents (insert ⟨c, s⟩ P) := by
  obtain ⟨hload, hav, hfree⟩ := (h.admits_iff hI).1 ha
  exact ⟨h.toKeeps.put hfree, h.toAllowed.insert hfree hload hav⟩

theorem Represents.cut (h : d.Represents P) (c : CourseIx I) (s : Slot I) :
    (d.cut c s).Represents (P.erase ⟨c, s⟩) :=
  ⟨h.toKeeps.cut c s, h.toAllowed.mono (Finset.erase_subset ..)⟩

theorem placed_eq_put (ha : d.admits c s = true) : d.placed c s = d.put c s := by
  simp [placed, place?, ha]

theorem placed_eq_self (ha : d.admits c s = false) : d.placed c s = d := by
  simp [placed, place?, ha]

theorem Keeps.lifted_eq_cut (h : d.Keeps P) (hc : ⟨c, s⟩ ∈ P) : d.lifted c s = d.cut c s := by
  simp [lifted, lift?, h.mem_slotsOf, hc]

theorem Keeps.lifted_eq_self (h : d.Keeps P) (hc : ⟨c, s⟩ ∉ P) : d.lifted c s = d := by
  simp [lifted, lift?, h.mem_slotsOf, hc]

/-- Taking away what was just put there restores every table. -/
theorem Represents.lifted_put (h : d.Represents P) (hI : I.Coherent) (ha : d.admits c s = true) :
    (d.put c s).lifted c s = d := by
  have hfree := ((h.admits_iff hI).1 ha).2.2
  have hput := h.toKeeps.put hfree
  have hcut := hput.cut c s
  rw [Finset.erase_insert hfree.notMem] at hcut
  rw [hput.lifted_eq_cut (Finset.mem_insert_self ..)]
  exact hcut.unique h.toKeeps

/-- A course that was taken away is admitted again, and that restores every table. -/
theorem Represents.placed_cut (h : d.Represents P) (hI : I.Coherent) (hc : ⟨c, s⟩ ∈ P) :
    (d.cut c s).placed c s = d := by
  have hcut := h.cut c s
  have hfree : Free (P.erase ⟨c, s⟩) c s := fun b hb => by
    obtain ⟨hne, hb⟩ := Finset.mem_erase.1 hb
    exact h.conflict_eq_false hc hb fun e => hne (by rw [e])
  have ha : (d.cut c s).admits c s = true := by
    refine (hcut.admits_iff hI).2 ⟨?_, h.available hc, hfree⟩
    have hload := h.load_le s
    have herase := load_erase hc
    omega
  have hput := hcut.toKeeps.put hfree
  rw [Finset.insert_erase hc] at hput
  rw [placed_eq_put ha]
  exact hput.unique h.toKeeps

/-- Once the only course in the way has left, the slot takes the new one. -/
theorem Represents.admits_cut (h : d.Represents P) (hI : I.Coherent) {old : CourseIx I}
    (hold : ⟨old, s⟩ ∈ P) (hav : I.isAvailable c s = true)
    (honly : ∀ b, ⟨b, s⟩ ∈ P → conflict c b = true → b = old) :
    (d.cut old s).admits c s = true := by
  refine ((h.cut old s).admits_iff hI).2 ⟨?_, hav, ?_⟩
  · have hload := h.load_le s
    have herase := load_erase hold
    omega
  · intro b hb
    obtain ⟨hne, hb⟩ := Finset.mem_erase.1 hb
    by_contra hconf
    exact hne (by rw [honly b hb (by simpa using hconf)])

theorem Represents.admits_cut_of_hindrances (h : d.Represents P) (hI : I.Coherent)
    {old : CourseIx I} (hone : hindrances P c s = {old}) (hav : I.isAvailable c s = true) :
    (d.cut old s).admits c s = true := by
  refine h.admits_cut hI (mem_of_hindrances_eq hone) hav ?_
  intro b hb hconf
  have hmem := mem_hindrances.2 ⟨hb, hconf⟩
  rwa [hone, Finset.mem_singleton] at hmem

/-- A takeover puts the course where it is admitted, exchanges it for the one course in its way, or
    leaves the draft as it was. The put-back of the old course is never needed. -/
theorem Represents.takeOver_cases (h : d.Represents P) (hI : I.Coherent) (c : CourseIx I)
    (s : Slot I) :
    (d.admits c s = true ∧ d.takeOver c s = .inserted (d.put c s)) ∨
    (∃ old, hindrances P c s = {old} ∧ (d.cut old s).admits c s = true ∧
      d.takeOver c s = .displaced ⟨old, s⟩ ((d.cut old s).put c s)) ∨
    (d.admits c s = false ∧ (I.isAvailable c s = true → ∀ old, hindrances P c s ≠ {old}) ∧
      d.takeOver c s = .blocked d) := by
  by_cases hav : I.isAvailable c s = true
  · have hnd : ((d.coursesAt s).filter (conflict c)).Nodup := (h.ascending_coursesAt s).nodup.filter _
    have hlist : ∀ b, b ∈ hindrances P c s ↔ b ∈ (d.coursesAt s).filter (conflict c) := fun b => by
      rw [mem_hindrances, List.mem_filter, h.mem_coursesAt]
    rcases listing_cases hnd hlist with ⟨hnone, hB⟩ | ⟨old, hone, hB⟩ | ⟨hmany, a, b, ys, hB⟩
    · by_cases ha : d.admits c s = true
      · exact .inl ⟨ha, by simp [takeOver, hav, hB, place?, ha]⟩
      · refine .inr (.inr ⟨Bool.eq_false_of_not_eq_true ha, ?_, by simp [takeOver, hav, hB, place?, ha]⟩)
        rw [hnone]
        exact fun _ old => (Finset.singleton_ne_empty old).symm
    · have ha := h.admits_cut_of_hindrances hI hone hav
      refine .inr (.inl ⟨old, hone, ha, ?_⟩)
      simp [takeOver, hav, hB, h.lifted_eq_cut (mem_of_hindrances_eq hone), place?, ha]
    · refine .inr (.inr ⟨?_, ?_, by simp [takeOver, hav, hB]⟩)
      · by_contra ha
        have hfree := ((h.admits_iff hI).1 (by simpa using ha)).2.2
        rw [free_iff_hindrances.1 hfree, Finset.card_empty] at hmany
        omega
      · intro _ old hone
        rw [hone, Finset.card_singleton] at hmany
        omega
  · refine .inr (.inr ⟨?_, fun h => absurd h hav, by simp [takeOver, hav]⟩)
    by_contra ha
    exact hav ((h.admits_iff hI).1 (by simpa using ha)).2.1

end Draft

end Timetabling
