import Mathlib.Data.Finset.Card
import Mathlib.Data.List.Basic
import Timetabling.Proofs.Instance.Coherence

/-! What an instance says of the records that it was resolved from. Every identifier is found again
    under its number, curricula and teachers are listed in the order of first mention, and a place in
    one of the two tables carries a mark just when a record names it. Marks of one course cannot be
    taken for those of the next, since every column is below the width. -/

namespace Timetabling

/-! ### First mentions -/

/-- The list has the members of the other one, each once, in the order in which they are first
    mentioned there. -/
structure FirstMentions {α : Type} [BEq α] (xs ys : List α) : Prop where
  nodup : xs.Nodup
  mem_iff : ∀ {a}, a ∈ xs ↔ a ∈ ys
  ordered : xs.Pairwise fun a b => ys.idxOf a < ys.idxOf b

section

variable {α β : Type} [BEq α] [LawfulBEq α] [BEq β] [LawfulBEq β]

theorem firstMentions_eraseDups (ys : List α) : FirstMentions ys.eraseDups ys := by
  induction ys using List.reverseRecOn with
  | nil => exact ⟨List.nodup_nil, by simp, .nil⟩
  | append_singleton ys a ih =>
    have hidx : ∀ b ∈ ys.eraseDups, (ys ++ [a]).idxOf b = ys.idxOf b :=
      fun b hb => List.idxOf_append_of_mem (ih.mem_iff.1 hb)
    have hordered : ys.eraseDups.Pairwise fun b c => (ys ++ [a]).idxOf b < (ys ++ [a]).idxOf c :=
      ih.ordered.imp_of_mem fun hb hc hlt => by rwa [hidx _ hb, hidx _ hc]
    rw [List.eraseDups_append]
    by_cases ha : a ∈ ys
    · have hnone : [a].removeAll ys = [] := by simp [List.removeAll, ha]
      rw [hnone, List.eraseDups_nil, List.append_nil]
      refine ⟨ih.nodup, ?_, hordered⟩
      intro b
      rw [ih.mem_iff, List.mem_append, List.mem_singleton]
      exact ⟨.inl, fun hb => hb.elim id fun e => e ▸ ha⟩
    · have hone : ([a].removeAll ys).eraseDups = [a] := by
        simp [List.removeAll, ha, List.eraseDups_cons]
      rw [hone]
      refine ⟨?_, by simp [ih.mem_iff], ?_⟩
      · refine List.nodup_append.2 ⟨ih.nodup, List.nodup_singleton a, ?_⟩
        rintro b hb c hc rfl
        exact ha (List.mem_singleton.1 hc ▸ ih.mem_iff.1 hb)
      · refine List.pairwise_append.2 ⟨hordered, List.pairwise_singleton .., ?_⟩
        intro b hb c hc
        obtain rfl := List.mem_singleton.1 hc
        rw [hidx b hb, List.idxOf_append_of_notMem ha]
        exact Nat.lt_add_right _ (List.idxOf_lt_length_of_mem (ih.mem_iff.1 hb))

theorem idxOf_map_of_injOn {f : α → β} {ys : List α} (hf : ∀ a ∈ ys, ∀ b ∈ ys, f a = f b → a = b)
    {a : α} (ha : a ∈ ys) : (ys.map f).idxOf (f a) = ys.idxOf a := by
  induction ys with
  | nil => cases ha
  | cons y ys ih =>
    rw [List.map_cons, List.idxOf_cons, List.idxOf_cons]
    by_cases hy : y = a
    · simp [hy]
    · have hfy : f y ≠ f a := fun e => hy (hf y (List.mem_cons_self ..) a ha e)
      have hmem := (List.mem_cons.1 ha).resolve_left (Ne.symm hy)
      have hrest := ih (fun b hb c hc =>
        hf b (List.mem_cons_of_mem _ hb) c (List.mem_cons_of_mem _ hc)) hmem
      simp [beq_false_of_ne hy, beq_false_of_ne hfy, hrest]

/-- First mentions stay so under names that differ. -/
theorem FirstMentions.map {xs ys : List α} (h : FirstMentions xs ys) {f : α → β}
    (hf : ∀ a ∈ ys, ∀ b ∈ ys, f a = f b → a = b) : FirstMentions (xs.map f) (ys.map f) where
  nodup := h.nodup.map_on fun a ha b hb => hf a (h.mem_iff.1 ha) b (h.mem_iff.1 hb)
  mem_iff := by simp [List.mem_map, h.mem_iff]
  ordered := List.pairwise_map.2 <| h.ordered.imp_of_mem fun ha hb hlt => by
    rwa [idxOf_map_of_injOn hf (h.mem_iff.1 ha), idxOf_map_of_injOn hf (h.mem_iff.1 hb)]

end

/-! ### Look-ups of a whole list -/

section

variable {α β : Type} {f : α → Option β} {xs : List α} {ys : List β}

theorem mem_of_mapM (h : xs.mapM f = some ys) {y : β} : y ∈ ys ↔ ∃ x ∈ xs, f x = some y := by
  have hrel := forall₂_of_mapM h
  clear h
  induction hrel with
  | nil => simp
  | cons hx _ ih => simp [ih, hx, eq_comm]

theorem exists_mapM (h : ∀ x ∈ xs, (f x).isSome = true) : ∃ ys, xs.mapM f = some ys := by
  induction xs with
  | nil => exact ⟨[], rfl⟩
  | cons x xs ih =>
    obtain ⟨y, hy⟩ := Option.isSome_iff_exists.1 (h x (List.mem_cons_self ..))
    obtain ⟨ys, hys⟩ := ih fun x' hx' => h x' (List.mem_cons_of_mem _ hx')
    exact ⟨y :: ys, by simp [List.mapM_cons, hy, hys]⟩

/-- A look-up of a whole list succeeds for every list with the same members, and finds the same. -/
theorem exists_mapM_congr {xs' : List α} (hx : ∀ x, x ∈ xs' ↔ x ∈ xs) (h : xs.mapM f = some ys) :
    ∃ ys', xs'.mapM f = some ys' ∧ ∀ y, y ∈ ys' ↔ y ∈ ys := by
  have hsome : ∀ x ∈ xs', (f x).isSome = true := by
    intro x hx'
    obtain ⟨i, hi, rfl⟩ := List.mem_iff_getElem.1 ((hx x).1 hx')
    have hrel := forall₂_of_mapM h
    exact Option.isSome_iff_exists.2 ⟨_, hrel.get hi (hrel.length_eq ▸ hi)⟩
  obtain ⟨ys', hys'⟩ := exists_mapM hsome
  refine ⟨ys', hys', ?_⟩
  intro y
  rw [mem_of_mapM hys', mem_of_mapM h]
  simp only [hx]

/-- Where no two members have one name, the name finds the member that has it. -/
theorem findIdx?_eq_some_iff_of_nodup {name : α → String} (hnd : (xs.map name).Nodup) {id : String}
    {n : Nat} : (xs.findIdx? fun x => name x = id) = some n ↔ (xs[n]?).map name = some id := by
  rw [List.findIdx?_eq_some_iff_getElem]
  constructor
  · rintro ⟨hn, hid, -⟩
    simpa [List.getElem?_eq_getElem hn] using hid
  · intro hid
    obtain ⟨x, hx, rfl⟩ := Option.map_eq_some_iff.1 hid
    obtain ⟨hn, rfl⟩ := List.getElem?_eq_some_iff.1 hx
    refine ⟨hn, by simp, ?_⟩
    intro j hj e
    have hjn : j < xs.length := Nat.lt_trans hj hn
    have hsame : (xs.map name)[j]? = (xs.map name)[n]? := by
      rw [List.getElem?_map, List.getElem?_map, List.getElem?_eq_getElem hjn,
        List.getElem?_eq_getElem hn, Option.map_some, Option.map_some, of_decide_eq_true e]
    exact absurd ((List.getElem?_inj (by rwa [List.length_map]) hnd).1 hsame) hj.ne

theorem findIdx?_toArray_eq_some_iff_of_nodup {xs : Array α} {name : α → String}
    (hnd : (xs.toList.map name).Nodup) {id : String} {n : Nat} :
    (xs.findIdx? fun x => name x = id) = some n ↔ (xs[n]?).map name = some id := by
  obtain ⟨xs⟩ := xs
  rw [List.findIdx?_toArray, List.getElem?_toArray]
  exact findIdx?_eq_some_iff_of_nodup hnd

end

/-! ### Marks -/

namespace MarkTable

variable {rows width : Nat} {marks : List (Nat × Nat)} {i j : Nat}

theorem size_bits_ofMarks (rows width : Nat) (marks : List (Nat × Nat)) :
    (ofMarks rows width marks).bits.size = rows * width := by
  have h : ∀ bits : Array Bool, (marks.foldl (fun bits m => bits.setIfInBounds (m.1 * width + m.2) true)
      bits).size = bits.size := by
    induction marks with
    | nil => exact fun _ => rfl
    | cons m marks ih => exact fun bits => by rw [List.foldl_cons, ih, Array.size_setIfInBounds]
  rw [ofMarks, h, Array.size_replicate]

theorem getD_foldl_setIfInBounds (bits : Array Bool) (marks : List (Nat × Nat)) (k : Nat) :
    (marks.foldl (fun bits m => bits.setIfInBounds (m.1 * width + m.2) true) bits).getD k false = true ↔
      bits.getD k false = true ∨ k < bits.size ∧ ∃ m ∈ marks, m.1 * width + m.2 = k := by
  induction marks generalizing bits with
  | nil => simp
  | cons m marks ih =>
    rw [List.foldl_cons, ih, Array.size_setIfInBounds]
    by_cases hk : m.1 * width + m.2 = k
    · subst hk
      by_cases hlt : m.1 * width + m.2 < bits.size <;> simp [hlt]
    · simp [Array.getElem?_setIfInBounds_ne hk, hk]

/-- A place of the table stands for one row and one column. -/
theorem place_inj {i' j' : Nat} (hj : j < width) (hj' : j' < width)
    (h : i * width + j = i' * width + j') : i = i' ∧ j = j' := by
  have hrow : ∀ a b, b < width → (a * width + b) / width = a := fun a b hb => by
    rw [Nat.add_comm, Nat.add_mul_div_right _ _ (Nat.zero_lt_of_lt hb), Nat.div_eq_of_lt hb,
      Nat.zero_add]
  obtain rfl : i = i' := by rw [← hrow i j hj, h, hrow i' j' hj']
  exact ⟨rfl, Nat.add_left_cancel h⟩

theorem place_lt (hi : i < rows) (hj : j < width) : i * width + j < rows * width :=
  calc i * width + j < (i + 1) * width := by rw [Nat.succ_mul]; omega
    _ ≤ rows * width := Nat.mul_le_mul_right _ hi

theorem mem_markedColumns {t : MarkTable} :
    j ∈ t.markedColumns i ↔ j < t.width ∧ t.marked i j = true := by
  rw [markedColumns, List.mem_filter, List.mem_range]

theorem nodup_markedColumns {t : MarkTable} : (t.markedColumns i).Nodup := List.nodup_range.filter _

/-- A table made of marks carries these and no others. -/
theorem marked_ofMarks (hmarks : ∀ m ∈ marks, m.2 < width) (hi : i < rows) (hj : j < width) :
    (ofMarks rows width marks).marked i j = true ↔ (i, j) ∈ marks := by
  have hplace := place_lt hi hj
  rw [marked, ofMarks, getD_foldl_setIfInBounds]
  simp only [Array.size_replicate, hplace, true_and, Array.getD_eq_getD_getElem?,
    Array.getElem?_replicate, if_true, Option.getD_some, Bool.false_eq_true, false_or]
  constructor
  · rintro ⟨⟨i', j'⟩, hm, he⟩
    obtain ⟨rfl, rfl⟩ := place_inj (hmarks _ hm) hj he
    exact hm
  · intro hm
    exact ⟨_, hm, rfl⟩

/-- Neither the order of the marks nor their repetition is seen in the table. -/
theorem ofMarks_congr {others : List (Nat × Nat)} (h : ∀ m, m ∈ marks ↔ m ∈ others) :
    ofMarks rows width marks = ofMarks rows width others := by
  have hsize := size_bits_ofMarks rows width
  have hbits : (ofMarks rows width marks).bits = (ofMarks rows width others).bits := by
    refine Array.ext (by rw [hsize, hsize]) ?_
    intro k hk hk'
    have hget : ∀ bits : Array Bool, ∀ hk : k < bits.size, bits[k] = bits.getD k false :=
      fun bits hk => by simp [hk]
    rw [hget _ hk, hget _ hk', Bool.eq_iff_iff, ofMarks, ofMarks, getD_foldl_setIfInBounds,
      getD_foldl_setIfInBounds]
    simp only [h]
  exact congrArg (MarkTable.mk width) hbits

end MarkTable

/-! ### The linked instance -/

namespace Records

open Instance

variable {r : Records} {I : Instance}

/-- The instance of the records, given what their identifiers stand for: the members of each
    curriculum by number, and the places of the two tables that carry marks. -/
def linked (r : Records) (members : List (List Nat)) (unavailable forbidden : List (Nat × Nat)) :
    Instance where
  name := r.name
  days := r.days
  periods := r.periods
  daily := r.daily
  courses := (r.courses.zipIdx.map fun c => r.numbered members c.1 c.2).toArray
  rooms := r.rooms.toArray
  curricula := (r.curricula.zipWith (fun q m => ⟨q.id, m⟩) members).toArray
  teachers := r.teacherNames.toArray
  unavailable := .ofMarks r.courses.length (r.days * r.periods) unavailable
  forbidden := .ofMarks r.courses.length r.rooms.length forbidden

theorem link?_eq_some_iff : r.link? = some I ↔ ∃ members unavailable forbidden,
    r.curricula.mapM r.members? = some members ∧
    r.unavailabilities.mapM r.unavailabilityMark? = some unavailable ∧
    r.roomConstraints.mapM r.constraintMark? = some forbidden ∧
    r.linked members unavailable forbidden = I := by
  simp only [link?, bind, Option.bind_eq_some_iff, pure, Option.some.injEq]
  constructor
  · rintro ⟨members, hm, us, hus, ks, hks, rfl⟩
    exact ⟨members, us, ks, hm, hus, hks, rfl⟩
  · rintro ⟨members, us, ks, hm, hus, hks, rfl⟩
    exact ⟨members, hm, us, hus, ks, hks, rfl⟩

theorem repeats_eq_nil_iff {seen ids : List String} :
    repeats seen ids = [] ↔ ids.Nodup ∧ ∀ id ∈ ids, id ∉ seen := by
  induction ids generalizing seen with
  | nil => simp [repeats]
  | cons id ids ih =>
    rw [repeats]
    split
    · rename_i hid
      simp [hid]
    · rename_i hid
      rw [ih, List.nodup_cons]
      constructor
      · rintro ⟨hnd, hseen⟩
        refine ⟨⟨fun hmem => hseen id hmem (List.mem_cons_self ..), hnd⟩, ?_⟩
        intro x hx
        rcases List.mem_cons.1 hx with rfl | hx
        · exact hid
        · exact fun hxs => hseen x hx (List.mem_cons_of_mem _ hxs)
      · rintro ⟨⟨hnot, hnd⟩, hseen⟩
        refine ⟨hnd, ?_⟩
        intro x hx hxs
        rcases List.mem_cons.1 hxs with rfl | hxs
        · exact hnot hx
        · exact hseen x (List.mem_cons_of_mem _ hx) hxs

/-- Without defects the courses and the rooms are told apart by their identifiers, and every
    constraint names what was declared. -/
structure Sound (r : Records) : Prop where
  nodup_courses : (r.courses.map Course.id).Nodup
  nodup_rooms : (r.rooms.map Room.id).Nodup
  unavailability : ∀ u ∈ r.unavailabilities,
    r.hasCourse u.course = true ∧ u.day < r.days ∧ u.period < r.periods
  roomConstraint : ∀ k ∈ r.roomConstraints, r.hasCourse k.course = true ∧ r.hasRoom k.room = true

theorem unavailabilityDefects_eq_nil_iff {u : Unavailability} : r.unavailabilityDefects u = [] ↔
    r.hasCourse u.course = true ∧ u.day < r.days ∧ u.period < r.periods := by
  simp only [unavailabilityDefects, List.append_eq_nil_iff, ite_eq_left_iff, List.cons_ne_nil,
    imp_false, Decidable.not_not]

theorem constraintDefects_eq_nil_iff {k : RoomConstraint} : r.constraintDefects k = [] ↔
    r.hasCourse k.course = true ∧ r.hasRoom k.room = true := by
  simp only [constraintDefects, List.append_eq_nil_iff, ite_eq_left_iff, List.cons_ne_nil,
    imp_false, Decidable.not_not]

/-- Records that nothing is wrong with: the grid has a slot, no identifier is declared twice, and
    every mention is of what was declared and on the grid. -/
structure Valid (r : Records) : Prop extends Sound r where
  days_pos : 0 < r.days
  periods_pos : 0 < r.periods
  nodup_curricula : (r.curricula.map CurriculumRecord.id).Nodup
  members : ∀ q ∈ r.curricula, ∀ m ∈ q.members, r.hasCourse m = true

theorem gridDefects_eq_nil_iff : r.gridDefects = [] ↔ 0 < r.days ∧ 0 < r.periods := by
  simp only [gridDefects, ite_eq_right_iff, List.cons_ne_nil, imp_false, not_or, Nat.pos_iff_ne_zero]

theorem memberDefects_eq_nil_iff {q : CurriculumRecord} :
    r.memberDefects q = [] ↔ ∀ m ∈ q.members, r.hasCourse m = true := by
  simp [memberDefects]

/-- The identifiers of the curricula are told apart as those of any list are; the members are
    looked up between. -/
theorem curriculumDefects_eq_nil_iff {seen : List String} {qs : List CurriculumRecord} :
    r.curriculumDefects seen qs = [] ↔ repeats seen (qs.map CurriculumRecord.id) = [] ∧
      ∀ q ∈ qs, ∀ m ∈ q.members, r.hasCourse m = true := by
  induction qs generalizing seen with
  | nil => simp [curriculumDefects, repeats]
  | cons q qs ih =>
    rw [curriculumDefects, List.append_eq_nil_iff, List.append_eq_nil_iff, ih, List.map_cons,
      repeats, List.forall_mem_cons, memberDefects_eq_nil_iff]
    split <;> simp [and_left_comm]

theorem defects_eq_nil_iff : r.defects = [] ↔ r.Valid := by
  simp only [defects, List.append_eq_nil_iff, List.map_eq_nil_iff, List.flatMap_eq_nil_iff,
    gridDefects_eq_nil_iff, curriculumDefects_eq_nil_iff, repeats_eq_nil_iff,
    unavailabilityDefects_eq_nil_iff, constraintDefects_eq_nil_iff, List.not_mem_nil,
    not_false_eq_true, implies_true, and_true]
  constructor
  · rintro ⟨⟨⟨⟨⟨⟨hd, hp⟩, hcs⟩, hxs⟩, hqs, hms⟩, hus⟩, hks⟩
    exact ⟨⟨hcs, hxs, hus, hks⟩, hd, hp, hqs, hms⟩
  · rintro ⟨⟨hcs, hxs, hus, hks⟩, hd, hp, hqs, hms⟩
    exact ⟨⟨⟨⟨⟨⟨hd, hp⟩, hcs⟩, hxs⟩, hqs, hms⟩, hus⟩, hks⟩

theorem valid_of_resolve (h : r.resolve = .ok I) : r.Valid :=
  defects_eq_nil_iff.1 (defects_eq_nil_of_resolve h)

/-- Records without defects resolve. -/
theorem exists_resolve (h : r.defects = []) : ∃ I, r.resolve = .ok I := by
  have hr := defects_eq_nil_iff.1 h
  obtain ⟨members, hmembers⟩ : ∃ members, r.curricula.mapM r.members? = some members := by
    refine exists_mapM fun q hq => ?_
    have hknown : ∀ m ∈ q.members, (r.courseNumber? m).isSome = true := by
      intro m hm
      rw [courseNumber?_isSome]
      exact hr.members q hq m hm
    obtain ⟨ns, hns⟩ := exists_mapM hknown
    simp [members?, hns]
  obtain ⟨unavailable, hus⟩ : ∃ ms, r.unavailabilities.mapM r.unavailabilityMark? = some ms := by
    refine exists_mapM fun u hu => ?_
    rw [unavailabilityMark?, Option.isSome_map, courseNumber?_isSome]
    exact (hr.unavailability u hu).1
  obtain ⟨forbidden, hks⟩ : ∃ ms, r.roomConstraints.mapM r.constraintMark? = some ms := by
    refine exists_mapM fun k hk => ?_
    obtain ⟨hcourse, hroom⟩ := hr.roomConstraint k hk
    obtain ⟨c, hc⟩ := Option.isSome_iff_exists.1 ((r.courseNumber?_isSome k.course).trans hcourse)
    obtain ⟨x, hx⟩ := Option.isSome_iff_exists.1 ((r.roomNumber?_isSome k.room).trans hroom)
    simp [constraintMark?, hc, hx]
  have hlink := link?_eq_some_iff.2 ⟨members, unavailable, forbidden, hmembers, hus, hks, rfl⟩
  exact ⟨_, by rw [resolve, h, hlink]⟩

theorem courseNumber?_eq_some_iff (hr : r.Sound) {id : String} {n : Nat} :
    r.courseNumber? id = some n ↔ (r.courses[n]?).map Course.id = some id :=
  findIdx?_eq_some_iff_of_nodup hr.nodup_courses

theorem roomNumber?_eq_some_iff (hr : r.Sound) {id : String} {n : Nat} :
    r.roomNumber? id = some n ↔ (r.rooms[n]?).map Room.id = some id :=
  findIdx?_eq_some_iff_of_nodup hr.nodup_rooms

section

variable {members : List (List Nat)} {unavailable forbidden : List (Nat × Nat)}

theorem course_linked (c : CourseIx (r.linked members unavailable forbidden)) :
    ∃ d, r.courses[c.val]? = some d ∧ course c = r.numbered members d c.val := by
  have hc : (r.linked members unavailable forbidden).courses[c.val]? = some (course c) :=
    Array.getElem?_eq_getElem c.isLt
  simp only [linked, List.getElem?_toArray, List.getElem?_map, List.getElem?_zipIdx,
    Option.map_map, Nat.zero_add] at hc
  obtain ⟨d, hd, he⟩ := Option.map_eq_some_iff.1 hc
  exact ⟨d, hd, he.symm⟩

theorem id_courses_linked (n : Nat) :
    ((r.linked members unavailable forbidden).courses[n]?).map Course.id =
      (r.courses[n]?).map Course.id := by
  simp [linked, List.getElem?_zipIdx, Option.map_map, Function.comp_def, numbered]

theorem ids_linked : (r.linked members unavailable forbidden).courses.toList.map Course.id =
    r.courses.map Course.id := by
  refine List.ext_getElem? ?_
  intro n
  rw [List.getElem?_map, List.getElem?_map, Array.getElem?_toList, id_courses_linked]

theorem teacher_mem_teacherNames {d : Course} {n : Nat} (h : r.courses[n]? = some d) :
    d.teacher ∈ r.teacherNames :=
  (firstMentions_eraseDups _).mem_iff.2 (List.mem_map_of_mem (List.mem_of_getElem? h))

end

end Records

namespace Instance

/-- An instance says what the records say: every identifier is found again under its number,
    curricula and teachers are listed by first mention, and a course is kept from those slots and
    rooms that a record names. -/
structure Describes (I : Instance) (r : Records) : Prop where
  header : I.name = r.name ∧ I.daily = r.daily
  grid : I.days = r.days ∧ I.periods = r.periods
  rooms : I.rooms.toList = r.rooms
  size_courses : I.courses.size = r.courses.length
  size_curricula : I.curricula.size = r.curricula.length
  course_eq (c : CourseIx I) : ∃ d, r.courses[c.val]? = some d ∧
    course c = { d with curricula := curriculaOf c, teacherNumber := teacherOf c }
  curriculum_eq (q : CurriculumIx I) : ∃ k, r.curricula[q.val]? = some k ∧
    I.curricula[q].id = k.id ∧
    FirstMentions (I.curricula[q].courses.map fun n => (I.courses[n]?).map Course.id)
      (k.members.map some)
  mem_curriculaOf_iff (c : CourseIx I) (n : Nat) :
    n ∈ curriculaOf c ↔ ∃ q : CurriculumIx I, q.val = n ∧ c.val ∈ I.curricula[q].courses
  curriculaOf_ascending (c : CourseIx I) : (curriculaOf c).Pairwise (· < ·)
  teachers : FirstMentions I.teachers.toList (r.courses.map Course.teacher)
  teacher_eq (c : CourseIx I) : I.teachers[teacherOf c]? = some (course c).teacher
  teacherOf_eq_iff (a b : CourseIx I) :
    teacherOf a = teacherOf b ↔ (course a).teacher = (course b).teacher
  isAvailable_iff (c : CourseIx I) {d p : Nat} (hd : d < I.days) (hp : p < I.periods) :
    I.isAvailable c (I.slotNumber d p) = false ↔ ⟨(course c).id, d, p⟩ ∈ r.unavailabilities
  unavailableCount_eq (c : CourseIx I) : unavailableCount c =
    ((r.unavailabilities.filter fun u => u.course = (course c).id).map
      fun u => (u.day, u.period)).toFinset.card
  isSuitable_iff (c : CourseIx I) (x : RoomIx I) :
    I.isSuitable c x = false ↔ ⟨(course c).id, (room x).id⟩ ∈ r.roomConstraints
  courseNumber?_iff (id : String) (n : Nat) :
    I.courseNumber? id = some n ↔ (I.courses[n]?).map Course.id = some id
  roomNumber?_iff (id : String) (n : Nat) :
    I.roomNumber? id = some n ↔ (I.rooms[n]?).map Room.id = some id

end Instance

namespace Records

open Instance

variable {r : Records} {members : List (List Nat)} {unavailable forbidden : List (Nat × Nat)}

theorem courseNumber?_linked (hr : r.Sound) (c : CourseIx (r.linked members unavailable forbidden))
    {id : String} : r.courseNumber? id = some c.val ↔ id = (course c).id := by
  obtain ⟨d, hd, hc⟩ := course_linked c
  rw [courseNumber?_eq_some_iff hr, hd, hc, Option.map_some, Option.some.injEq, eq_comm]
  rfl

theorem roomNumber?_linked (hr : r.Sound) (x : RoomIx (r.linked members unavailable forbidden))
    {id : String} : r.roomNumber? id = some x.val ↔ id = (room x).id := by
  have hx : (r.linked members unavailable forbidden).rooms[x.val]? = some (room x) :=
    Array.getElem?_eq_getElem x.isLt
  simp only [linked, List.getElem?_toArray] at hx
  rw [roomNumber?_eq_some_iff hr, hx, Option.map_some, Option.some.injEq, eq_comm]
  rfl

theorem map_id_of_mapM (hr : r.Sound) {ids : List String} {ns : List Nat}
    (h : ids.mapM r.courseNumber? = some ns) :
    ns.map (fun n => (r.courses[n]?).map Course.id) = ids.map some := by
  have hrel := forall₂_of_mapM h
  clear h
  induction hrel with
  | nil => rfl
  | cons hid _ ih => rw [List.map_cons, List.map_cons, ih, (courseNumber?_eq_some_iff hr).1 hid]

theorem curriculum_linked (hr : r.Sound) (hmembers : r.curricula.mapM r.members? = some members)
    (q : CurriculumIx (r.linked members unavailable forbidden)) :
    ∃ k, r.curricula[q.val]? = some k ∧
      (r.linked members unavailable forbidden).curricula[q].id = k.id ∧
      FirstMentions ((r.linked members unavailable forbidden).curricula[q].courses.map fun n =>
        ((r.linked members unavailable forbidden).courses[n]?).map Course.id) (k.members.map some) := by
  have hq : (r.linked members unavailable forbidden).curricula[q.val]? =
      some (r.linked members unavailable forbidden).curricula[q] :=
    Array.getElem?_eq_getElem q.isLt
  generalize (r.linked members unavailable forbidden).curricula[q] = cq at hq ⊢
  simp only [linked, List.getElem?_toArray, List.getElem?_zipWith_eq_some] at hq
  obtain ⟨k, ms, hk, hms, rfl⟩ := hq
  have hkm : r.members? k = some ms := by
    obtain ⟨hqk, rfl⟩ := List.getElem?_eq_some_iff.1 hk
    obtain ⟨hqm, rfl⟩ := List.getElem?_eq_some_iff.1 hms
    exact (forall₂_of_mapM hmembers).get hqk hqm
  obtain ⟨ns, hns, rfl⟩ := Option.map_eq_some_iff.1 hkm
  refine ⟨k, hk, rfl, ?_⟩
  simp only [id_courses_linked]
  have hname : ns.map (fun n => (r.courses[n]?).map Course.id) = k.members.map some :=
    map_id_of_mapM hr hns
  have hinj : ∀ a ∈ ns, ∀ b ∈ ns,
      (r.courses[a]?).map Course.id = (r.courses[b]?).map Course.id → a = b := by
    intro a ha b hb he
    obtain ⟨x, hx, hxa⟩ := (mem_of_mapM hns).1 ha
    have hxb := (courseNumber?_eq_some_iff hr).2 (he ▸ (courseNumber?_eq_some_iff hr).1 hxa)
    exact Option.some.inj (hxa.symm.trans hxb)
  rw [← hname]
  exact (firstMentions_eraseDups ns).map hinj

theorem isAvailable_linked (hr : r.Sound)
    (hus : r.unavailabilities.mapM r.unavailabilityMark? = some unavailable)
    (c : CourseIx (r.linked members unavailable forbidden)) {d p : Nat} (hd : d < r.days)
    (hp : p < r.periods) :
    (r.linked members unavailable forbidden).isAvailable c
        ((r.linked members unavailable forbidden).slotNumber d p) = false ↔
      ⟨(course c).id, d, p⟩ ∈ r.unavailabilities := by
  have hcolumns : ∀ m ∈ unavailable, m.2 < r.days * r.periods := by
    intro m hm
    obtain ⟨u, hu, hmark⟩ := (mem_of_mapM hus).1 hm
    obtain ⟨n, -, rfl⟩ := Option.map_eq_some_iff.1 hmark
    exact MarkTable.place_lt (hr.unavailability u hu).2.1 (hr.unavailability u hu).2.2
  have hc : c.val < r.courses.length := by simpa [linked] using c.isLt
  rw [isAvailable, Bool.not_eq_false']
  refine (MarkTable.marked_ofMarks hcolumns hc (MarkTable.place_lt hd hp)).trans ?_
  rw [mem_of_mapM hus]
  constructor
  · rintro ⟨⟨id, d', p'⟩, hu, hmark⟩
    obtain ⟨n, hn, he⟩ := Option.map_eq_some_iff.1 hmark
    obtain ⟨rfl, hplace⟩ := Prod.mk.inj he
    obtain ⟨rfl, rfl⟩ := MarkTable.place_inj (hr.unavailability _ hu).2.2 hp hplace
    obtain rfl := (courseNumber?_linked hr c).1 hn
    exact hu
  · intro hu
    exact ⟨_, hu, Option.map_eq_some_iff.2 ⟨c, (courseNumber?_linked hr c).2 rfl, rfl⟩⟩

theorem constraintMark?_eq_some_iff {k : RoomConstraint} {m : Nat × Nat} :
    r.constraintMark? k = some m ↔
      r.courseNumber? k.course = some m.1 ∧ r.roomNumber? k.room = some m.2 := by
  simp only [constraintMark?, bind, Option.bind_eq_some_iff, pure, Option.some.injEq, Prod.ext_iff]
  constructor
  · rintro ⟨c, hc, x, hx, rfl, rfl⟩
    exact ⟨hc, hx⟩
  · rintro ⟨hc, hx⟩
    exact ⟨_, hc, _, hx, rfl, rfl⟩

theorem isSuitable_linked (hr : r.Sound)
    (hks : r.roomConstraints.mapM r.constraintMark? = some forbidden)
    (c : CourseIx (r.linked members unavailable forbidden))
    (x : RoomIx (r.linked members unavailable forbidden)) :
    (r.linked members unavailable forbidden).isSuitable c x = false ↔
      ⟨(course c).id, (room x).id⟩ ∈ r.roomConstraints := by
  have hcolumns : ∀ m ∈ forbidden, m.2 < r.rooms.length := by
    intro m hm
    obtain ⟨k, -, hk⟩ := (mem_of_mapM hks).1 hm
    obtain ⟨y, hy, -⟩ :=
      Option.map_eq_some_iff.1 ((roomNumber?_eq_some_iff hr).1 (constraintMark?_eq_some_iff.1 hk).2)
    exact (List.getElem?_eq_some_iff.1 hy).1
  have hc : c.val < r.courses.length := by simpa [linked] using c.isLt
  have hx : x.val < r.rooms.length := by simpa [linked] using x.isLt
  rw [isSuitable, Bool.not_eq_false']
  refine (MarkTable.marked_ofMarks hcolumns hc hx).trans ?_
  rw [mem_of_mapM hks]
  constructor
  · rintro ⟨⟨id, id'⟩, hk, he⟩
    obtain ⟨hid, hid'⟩ := constraintMark?_eq_some_iff.1 he
    obtain rfl := (courseNumber?_linked hr c).1 hid
    obtain rfl := (roomNumber?_linked hr x).1 hid'
    exact hk
  · intro hk
    exact ⟨_, hk, constraintMark?_eq_some_iff.2
      ⟨(courseNumber?_linked hr c).2 rfl, (roomNumber?_linked hr x).2 rfl⟩⟩

/-- The marks of a course are counted as the different days and periods that its records name. -/
theorem unavailableCount_linked (hr : r.Sound)
    (hus : r.unavailabilities.mapM r.unavailabilityMark? = some unavailable)
    (c : CourseIx (r.linked members unavailable forbidden)) :
    unavailableCount c = ((r.unavailabilities.filter fun u => u.course = (course c).id).map
      fun u => (u.day, u.period)).toFinset.card := by
  have hmarked : ∀ {d p : Nat}, d < r.days → p < r.periods →
      ((r.linked members unavailable forbidden).unavailable.marked c (d * r.periods + p) = true ↔
        ⟨(course c).id, d, p⟩ ∈ r.unavailabilities) := by
    intro d p hd hp
    rw [← isAvailable_linked hr hus c hd hp, isAvailable, Bool.not_eq_false']
    rfl
  rw [unavailableCount, ← MarkTable.length_markedColumns,
    ← List.toFinset_card_of_nodup MarkTable.nodup_markedColumns]
  refine (Finset.card_bij (fun m _ => m.1 * r.periods + m.2) ?_ ?_ ?_).symm
  · rintro ⟨d, p⟩ hm
    simp only [List.mem_toFinset, List.mem_map, List.mem_filter, decide_eq_true_eq] at hm
    obtain ⟨⟨id, d, p⟩, ⟨hu, rfl⟩, he⟩ := hm
    obtain ⟨rfl, rfl⟩ := Prod.mk.inj he
    obtain ⟨-, hd, hp⟩ := hr.unavailability _ hu
    rw [List.mem_toFinset, MarkTable.mem_markedColumns]
    exact ⟨MarkTable.place_lt hd hp, (hmarked hd hp).2 hu⟩
  · rintro ⟨d, p⟩ hm ⟨d', p'⟩ hm' he
    simp only [List.mem_toFinset, List.mem_map, List.mem_filter, decide_eq_true_eq] at hm hm'
    obtain ⟨u, ⟨hu, -⟩, hud⟩ := hm
    obtain ⟨u', ⟨hu', -⟩, hud'⟩ := hm'
    obtain ⟨rfl, rfl⟩ := Prod.mk.inj hud
    obtain ⟨rfl, rfl⟩ := Prod.mk.inj hud'
    obtain ⟨hd, hp⟩ := MarkTable.place_inj (hr.unavailability _ hu).2.2
      (hr.unavailability _ hu').2.2 he
    exact Prod.ext hd hp
  · intro j hj
    rw [List.mem_toFinset, MarkTable.mem_markedColumns] at hj
    obtain ⟨hlt, hj⟩ := hj
    have hlt : j < r.days * r.periods := hlt
    have hpos : 0 < r.periods := Nat.pos_of_ne_zero fun h => by simp [h] at hlt
    have hd : j / r.periods < r.days := Nat.div_lt_of_lt_mul (by rwa [Nat.mul_comm])
    have hp : j % r.periods < r.periods := Nat.mod_lt _ hpos
    have hsplit : j / r.periods * r.periods + j % r.periods = j := Nat.div_add_mod' ..
    refine ⟨(j / r.periods, j % r.periods), ?_, hsplit⟩
    rw [List.mem_toFinset, List.mem_map]
    refine ⟨_, List.mem_filter.2 ⟨(hmarked hd hp).1 (by rwa [hsplit]), by simp⟩, rfl⟩

/-- A course lists its curricula upwards, whatever it listed before. -/
theorem curricula_numbered_ascending {c : Course} {n : Nat} :
    (r.numbered members c n).curricula.Pairwise (· < ·) :=
  List.pairwise_map.2 ((pairwise_snd_zipIdx members).filter _)

theorem teachers_linked (c : CourseIx (r.linked members unavailable forbidden)) :
    (r.linked members unavailable forbidden).teachers[teacherOf c]? = some (course c).teacher ∧
      teacherOf c = r.teacherNames.idxOf (course c).teacher := by
  obtain ⟨d, hd, hc⟩ := course_linked c
  have hnumber : teacherOf c = r.teacherNames.idxOf (course c).teacher := by
    rw [teacherOf, hc]
    rfl
  have hmem : (course c).teacher ∈ r.teacherNames := by
    rw [hc]
    exact (teacher_mem_teacherNames hd : d.teacher ∈ r.teacherNames)
  refine ⟨?_, hnumber⟩
  rw [hnumber]
  exact (List.getElem?_toArray ..).trans (List.getElem?_idxOf hmem)

theorem describes_linked (hr : r.Sound) (hI : (r.linked members unavailable forbidden).Coherent)
    (hmembers : r.curricula.mapM r.members? = some members)
    (hus : r.unavailabilities.mapM r.unavailabilityMark? = some unavailable)
    (hks : r.roomConstraints.mapM r.constraintMark? = some forbidden) :
    (r.linked members unavailable forbidden).Describes r where
  header := ⟨rfl, rfl⟩
  grid := ⟨rfl, rfl⟩
  rooms := rfl
  size_courses := by simp [linked]
  size_curricula := by simp [linked, (forall₂_of_mapM hmembers).length_eq]
  course_eq c := by
    obtain ⟨d, hd, hc⟩ := course_linked c
    refine ⟨d, hd, ?_⟩
    rw [curriculaOf, teacherOf, hc]
    rfl
  curriculum_eq := curriculum_linked hr hmembers
  mem_curriculaOf_iff c n := by
    constructor
    · intro hn
      obtain ⟨q, hq, hqn⟩ := hI.exists_membership hn
      exact ⟨q, hqn, hI.mem_courses_iff.2 hq⟩
    · rintro ⟨q, rfl, hc⟩
      exact mem_memberships.1 (hI.mem_courses_iff.1 hc)
  curriculaOf_ascending c := by
    obtain ⟨d, -, hc⟩ := course_linked c
    rw [curriculaOf, hc]
    exact curricula_numbered_ascending
  teachers := firstMentions_eraseDups _
  teacher_eq c := (teachers_linked c).1
  teacherOf_eq_iff a b := by
    constructor
    · intro h
      exact Option.some.inj ((teachers_linked a).1.symm.trans (h ▸ (teachers_linked b).1))
    · intro h
      rw [(teachers_linked a).2, (teachers_linked b).2, h]
  isAvailable_iff c _ _ hd hp := isAvailable_linked hr hus c hd hp
  unavailableCount_eq := unavailableCount_linked hr hus
  isSuitable_iff := isSuitable_linked hr hks
  courseNumber?_iff id n := by
    refine findIdx?_toArray_eq_some_iff_of_nodup ?_
    rw [ids_linked]
    exact hr.nodup_courses
  roomNumber?_iff id n := findIdx?_toArray_eq_some_iff_of_nodup hr.nodup_rooms

/-- The defects of the curricula depend on nothing but the courses that are declared. -/
theorem curriculumDefects_congr {r' : Records} (h : r'.hasCourse = r.hasCourse) {seen : List String}
    {qs : List CurriculumRecord} : r'.curriculumDefects seen qs = r.curriculumDefects seen qs := by
  induction qs generalizing seen with
  | nil => rfl
  | cons q qs ih => simp only [curriculumDefects, memberDefects, h, ih]

theorem defects_congr_constraints {us : List Unavailability} {ks : List RoomConstraint}
    (hus : ∀ u, u ∈ us ↔ u ∈ r.unavailabilities) (hks : ∀ k, k ∈ ks ↔ k ∈ r.roomConstraints)
    (h : r.defects = []) : { r with unavailabilities := us, roomConstraints := ks }.defects = [] := by
  have hcurricula : { r with unavailabilities := us, roomConstraints := ks }.curriculumDefects []
      r.curricula = r.curriculumDefects [] r.curricula := by
    refine curriculumDefects_congr ?_
    rfl
  simp only [defects, List.append_eq_nil_iff, List.flatMap_eq_nil_iff, hcurricula] at h ⊢
  exact ⟨⟨h.1.1, fun u hu => h.1.2 u ((hus u).1 hu)⟩, fun k hk => h.2 k ((hks k).1 hk)⟩

/-- Records that resolve describe the instance they resolve to; sharing a curriculum is symmetric
    there, and the order and the repetition of unavailabilities and room constraints are not seen. -/
theorem describes_of_resolve {I : Instance} (h : r.resolve = .ok I) :
    I.Describes r ∧ (∀ a b : CourseIx I, shareCurriculum a b = shareCurriculum b a) ∧
      ∀ us ks, (∀ u, u ∈ us ↔ u ∈ r.unavailabilities) → (∀ k, k ∈ ks ↔ k ∈ r.roomConstraints) →
        { r with unavailabilities := us, roomConstraints := ks }.resolve = .ok I := by
  have hdefects := defects_eq_nil_of_resolve h
  have hr := (defects_eq_nil_iff.1 hdefects).toSound
  have hI := coherent_of_resolve h
  obtain ⟨members, unavailable, forbidden, hmembers, hus, hks, rfl⟩ :=
    link?_eq_some_iff.1 (link?_eq_some_of_resolve h)
  refine ⟨describes_linked hr hI hmembers hus hks, shareCurriculum_comm, ?_⟩
  intro us ks hu hk
  obtain ⟨unavailable', hus', hsameu⟩ := exists_mapM_congr hu hus
  obtain ⟨forbidden', hks', hsamek⟩ := exists_mapM_congr hk hks
  have hlink : { r with unavailabilities := us, roomConstraints := ks }.link? =
      some (r.linked members unavailable forbidden) := by
    refine link?_eq_some_iff.2 ⟨members, unavailable', forbidden', hmembers, hus', hks', ?_⟩
    simp only [linked, MarkTable.ofMarks_congr hsameu, MarkTable.ofMarks_congr hsamek]
    rfl
  rw [resolve, defects_congr_constraints hu hk hdefects, hlink]

/-- The pair is found again in its instance, and a repeated unavailability changes nothing. -/
theorem describes_of_resolve_pair : pair.resolve = .ok Instance.pair ∧
    Instance.pair.Describes pair ∧
    { pair with unavailabilities := [⟨"optics", 0, 0⟩, ⟨"optics", 0, 0⟩] }.resolve =
      .ok Instance.pair := by
  obtain ⟨hdescribes, -, hcongr⟩ := describes_of_resolve resolve_pair
  refine ⟨resolve_pair, hdescribes, ?_⟩
  exact hcongr [⟨"optics", 0, 0⟩, ⟨"optics", 0, 0⟩] pair.roomConstraints (by simp [pair])
    fun _ => Iff.rfl

end Records

end Timetabling
