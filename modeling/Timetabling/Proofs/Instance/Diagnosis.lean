import Mathlib.Data.List.Basic
import Timetabling.Proofs.Instance.Resolution

/-! The defects that are told are those that the records have. What can be wrong is wrong at a place:
    the grid, a record whose identifier an earlier one of its list has, or one mention in a record.
    The places are ordered as the records are read, and each can have one defect at most. Pairing
    every defect with its place turns the list of defects into the list of all places at which
    something is wrong, in that order: none is left out, told twice or hidden by another. -/

namespace Timetabling

namespace Records

/-- A place where something can be wrong, with the number of the record in its list and, for a member
    of a curriculum, the number of the mention. -/
inductive Place where
  | grid
  | course (i : Nat)
  | room (i : Nat)
  | curriculum (i : Nat)
  | member (i j : Nat)
  | unavailabilityCourse (i : Nat)
  | unavailabilitySlot (i : Nat)
  | constraintCourse (i : Nat)
  | constraintRoom (i : Nat)
  deriving DecidableEq, Repr

namespace Place

/-- Where a place stands: its list, its record there and the mention in the record. -/
def position : Place → List Nat
  | grid => [0]
  | course i => [1, i]
  | room i => [2, i]
  | curriculum i => [3, i]
  | member i j => [3, i, j]
  | unavailabilityCourse i => [4, i, 0]
  | unavailabilitySlot i => [4, i, 1]
  | constraintCourse i => [5, i, 0]
  | constraintRoom i => [5, i, 1]

/-- A place is read before another; a record is read before what it mentions. -/
def Before (p p' : Place) : Prop := p.position < p'.position

/-- The kind of what can be wrong at a place. -/
def kind : Place → DefectKind
  | grid => .emptyGrid
  | course _ | room _ | curriculum _ => .duplicateId
  | member .. | unavailabilityCourse _ | constraintCourse _ => .unknownCourse
  | unavailabilitySlot _ => .slotOutOfRange
  | constraintRoom _ => .unknownRoom

end Place

/-- An entry of the list occurs in it before. -/
def RepeatedAt (ids : List String) (i : Nat) (id : String) : Prop :=
  ids[i]? = some id ∧ id ∈ ids.take i

/-- What is wrong at a place of the records. -/
inductive DefectAt (r : Records) : Place → Defect → Prop
  | grid : r.days = 0 ∨ r.periods = 0 → DefectAt r .grid (.emptyGrid r.days r.periods)
  | course {i id} : RepeatedAt (r.courses.map Course.id) i id →
      DefectAt r (.course i) (.repeatedCourse id)
  | room {i id} : RepeatedAt (r.rooms.map Room.id) i id → DefectAt r (.room i) (.repeatedRoom id)
  | curriculum {i id} : RepeatedAt (r.curricula.map CurriculumRecord.id) i id →
      DefectAt r (.curriculum i) (.repeatedCurriculum id)
  | member {i j q c} : r.curricula[i]? = some q → q.members[j]? = some c → r.hasCourse c = false →
      DefectAt r (.member i j) (.unknownMember q.id c)
  | unavailabilityCourse {i u} : r.unavailabilities[i]? = some u → r.hasCourse u.course = false →
      DefectAt r (.unavailabilityCourse i) (.unavailabilityOfUnknownCourse u.course)
  | unavailabilitySlot {i u} : r.unavailabilities[i]? = some u →
      ¬(u.day < r.days ∧ u.period < r.periods) →
      DefectAt r (.unavailabilitySlot i) (.unavailabilityOffGrid u.course u.day u.period)
  | constraintCourse {i k} : r.roomConstraints[i]? = some k → r.hasCourse k.course = false →
      DefectAt r (.constraintCourse i) (.constraintOfUnknownCourse k.course)
  | constraintRoom {i k} : r.roomConstraints[i]? = some k → r.hasRoom k.room = false →
      DefectAt r (.constraintRoom i) (.constraintOnUnknownRoom k.course k.room)

/-- The places at which something is wrong, each once and in order, with what is wrong there. -/
structure Diagnosis (r : Records) (located : List (Place × Defect)) : Prop where
  ordered : located.Pairwise fun e e' => e.1.Before e'.1
  mem_iff : ∀ {p d}, (p, d) ∈ located ↔ r.DefectAt p d
  kind_eq : ∀ e ∈ located, e.2.kind = e.1.kind

variable {r : Records}

theorem DefectAt.kind_eq {p : Place} {d : Defect} (h : r.DefectAt p d) : d.kind = p.kind := by
  cases h <;> rfl

/-! ### Defects with their places -/

/-- The repeated entries of a list, each with its place there. -/
def locatedRepeats (place : Nat → Place) (defect : String → Defect) (ids : List String) :
    List (Place × Defect) :=
  (ids.zipIdx.filter fun e => e.1 ∈ ids.take e.2).map fun e => (place e.2, defect e.1)

/-- The unknown members of the curriculum with this number. -/
def locatedMembers (r : Records) (q : CurriculumRecord) (i : Nat) : List (Place × Defect) :=
  (q.members.zipIdx.filter fun e => !r.hasCourse e.1).map fun e =>
    (.member i e.2, .unknownMember q.id e.1)

/-- The defects of the curriculum with this number, where the identifiers in `seen` occur before. -/
def locatedCurriculum (r : Records) (seen : List String) (q : CurriculumRecord) (i : Nat) :
    List (Place × Defect) :=
  (if q.id ∈ seen then [(.curriculum i, .repeatedCurriculum q.id)] else []) ++ r.locatedMembers q i

/-- The defects of the unavailability with this number. -/
def locatedUnavailability (r : Records) (u : Unavailability) (i : Nat) : List (Place × Defect) :=
  (if r.hasCourse u.course then []
    else [(.unavailabilityCourse i, .unavailabilityOfUnknownCourse u.course)]) ++
  (if u.day < r.days ∧ u.period < r.periods then []
    else [(.unavailabilitySlot i, .unavailabilityOffGrid u.course u.day u.period)])

/-- The defects of the room constraint with this number. -/
def locatedConstraint (r : Records) (k : RoomConstraint) (i : Nat) : List (Place × Defect) :=
  (if r.hasCourse k.course then []
    else [(.constraintCourse i, .constraintOfUnknownCourse k.course)]) ++
  (if r.hasRoom k.room then [] else [(.constraintRoom i, .constraintOnUnknownRoom k.course k.room)])

/-- Every defect of the records with its place. -/
def located (r : Records) : List (Place × Defect) :=
  (if r.days = 0 ∨ r.periods = 0 then [(.grid, .emptyGrid r.days r.periods)] else []) ++
    locatedRepeats .course .repeatedCourse (r.courses.map Course.id) ++
    locatedRepeats .room .repeatedRoom (r.rooms.map Room.id) ++
    (r.curricula.zipIdx.flatMap fun e =>
      r.locatedCurriculum ((r.curricula.map CurriculumRecord.id).take e.2) e.1 e.2) ++
    (r.unavailabilities.zipIdx.flatMap fun e => r.locatedUnavailability e.1 e.2) ++
    r.roomConstraints.zipIdx.flatMap fun e => r.locatedConstraint e.1 e.2

/-! ### Without their places these are the defects -/

theorem map_snd_locatedRepeats (place : Nat → Place) (defect : String → Defect) (ids : List String) :
    (locatedRepeats place defect ids).map Prod.snd = (repeats [] ids).map defect := by
  -- the walk stands after `pre`, and `seen` has the identifiers that occur there
  suffices h : ∀ pre seen rest, (∀ id, id ∈ seen ↔ id ∈ pre) →
      ((rest.zipIdx pre.length).filter fun e => e.1 ∈ (pre ++ rest).take e.2).map
        (fun e => defect e.1) = (repeats seen rest).map defect by
    rw [locatedRepeats, List.map_map, ← h [] [] ids fun _ => Iff.rfl]
    rfl
  intro pre seen rest hseen
  induction rest generalizing pre seen with
  | nil => rfl
  | cons id rest ih =>
    have hrest : ∀ seen', (∀ x, x ∈ seen' ↔ x ∈ pre ++ [id]) → _ := ih (pre ++ [id])
    simp only [List.length_append, List.length_singleton, List.append_assoc,
      List.singleton_append] at hrest
    rw [List.zipIdx_cons, repeats]
    by_cases hid : id ∈ pre
    · have hseen' : ∀ x, x ∈ seen ↔ x ∈ pre ++ [id] := by
        intro x
        rw [hseen, List.mem_append, List.mem_singleton, or_iff_left_of_imp]
        rintro rfl
        exact hid
      simp [hseen, hid, hrest seen hseen']
    · have hseen' : ∀ x, x ∈ id :: seen ↔ x ∈ pre ++ [id] := by
        intro x
        rw [List.mem_cons, hseen, List.mem_append, List.mem_singleton, or_comm]
      simp [hseen, hid, hrest (id :: seen) hseen']

theorem map_snd_locatedMembers (q : CurriculumRecord) (i : Nat) :
    (r.locatedMembers q i).map Prod.snd = r.memberDefects q := by
  rw [locatedMembers, memberDefects, List.map_map]
  conv_rhs => rw [← List.zipIdx_map_fst 0 q.members, List.filter_map, List.map_map]
  rfl

theorem map_snd_locatedCurricula (qs : List CurriculumRecord) :
    (qs.zipIdx.flatMap fun e => r.locatedCurriculum ((qs.map CurriculumRecord.id).take e.2) e.1
      e.2).map Prod.snd = r.curriculumDefects [] qs := by
  suffices h : ∀ pre seen rest, (∀ id, id ∈ seen ↔ id ∈ pre.map CurriculumRecord.id) →
      ((rest.zipIdx pre.length).flatMap fun e => r.locatedCurriculum
        (((pre ++ rest).map CurriculumRecord.id).take e.2) e.1 e.2).map Prod.snd =
        r.curriculumDefects seen rest from h [] [] qs fun _ => Iff.rfl
  intro pre seen rest hseen
  induction rest generalizing pre seen with
  | nil => rfl
  | cons q rest ih =>
    have hseen' : ∀ x, x ∈ q.id :: seen ↔ x ∈ (pre ++ [q]).map CurriculumRecord.id := by
      intro x
      rw [List.mem_cons, hseen, List.map_append, List.mem_append, List.map_singleton,
        List.mem_singleton, or_comm]
    have hrest := ih (pre ++ [q]) (q.id :: seen) hseen'
    simp only [List.length_append, List.length_singleton, List.append_assoc,
      List.singleton_append] at hrest
    have htake : ((pre ++ q :: rest).map CurriculumRecord.id).take pre.length =
        pre.map CurriculumRecord.id := by simp
    rw [List.zipIdx_cons, List.flatMap_cons, List.map_append, hrest, curriculumDefects, htake,
      locatedCurriculum, List.map_append, map_snd_locatedMembers]
    simp only [← hseen]
    split <;> rfl

theorem map_snd_flatMap_zipIdx {α : Type} {f : α → Nat → List (Place × Defect)}
    {g : α → List Defect} (h : ∀ a i, (f a i).map Prod.snd = g a) (xs : List α) :
    (xs.zipIdx.flatMap fun e => f e.1 e.2).map Prod.snd = xs.flatMap g := by
  conv_rhs => rw [← List.zipIdx_map_fst 0 xs, List.flatMap_map]
  simp only [List.map_flatMap, h]

theorem map_snd_locatedUnavailability (u : Unavailability) (i : Nat) :
    (r.locatedUnavailability u i).map Prod.snd = r.unavailabilityDefects u := by
  rw [locatedUnavailability, unavailabilityDefects, List.map_append]
  split <;> split <;> rfl

theorem map_snd_locatedConstraint (k : RoomConstraint) (i : Nat) :
    (r.locatedConstraint k i).map Prod.snd = r.constraintDefects k := by
  rw [locatedConstraint, constraintDefects, List.map_append]
  split <;> split <;> rfl

theorem map_snd_located (r : Records) : r.located.map Prod.snd = r.defects := by
  have hgrid : (if r.days = 0 ∨ r.periods = 0 then
      [(Place.grid, Defect.emptyGrid r.days r.periods)] else []).map Prod.snd = r.gridDefects := by
    rw [gridDefects]
    split <;> rfl
  simp only [located, defects, List.map_append, hgrid, map_snd_locatedRepeats,
    map_snd_locatedCurricula, map_snd_flatMap_zipIdx map_snd_locatedUnavailability,
    map_snd_flatMap_zipIdx map_snd_locatedConstraint]

/-! ### The places at which something is wrong -/

theorem mem_locatedRepeats {place : Nat → Place} {defect : String → Defect} {ids : List String}
    {p : Place} {d : Defect} : (p, d) ∈ locatedRepeats place defect ids ↔
      ∃ i id, RepeatedAt ids i id ∧ place i = p ∧ defect id = d := by
  simp only [locatedRepeats, List.mem_map, List.mem_filter, Prod.exists, decide_eq_true_eq,
    List.mem_zipIdx_iff_getElem?, Prod.mk.injEq, RepeatedAt]
  exact exists_comm

theorem mem_locatedMembers {q : CurriculumRecord} {i : Nat} {p : Place} {d : Defect} :
    (p, d) ∈ r.locatedMembers q i ↔ ∃ j c, q.members[j]? = some c ∧ r.hasCourse c = false ∧
      .member i j = p ∧ .unknownMember q.id c = d := by
  simp only [locatedMembers, List.mem_map, List.mem_filter, Prod.exists, Bool.not_eq_true',
    List.mem_zipIdx_iff_getElem?, Prod.mk.injEq, and_assoc]
  exact exists_comm

theorem defectAt_of_mem_located {p : Place} {d : Defect} (h : (p, d) ∈ r.located) :
    r.DefectAt p d := by
  simp only [located, locatedCurriculum, locatedUnavailability, locatedConstraint, List.mem_append,
    List.mem_flatMap, Prod.exists, List.mem_zipIdx_iff_getElem?, List.mem_ite_nil_right,
    List.mem_ite_nil_left, List.mem_singleton, Prod.mk.injEq, mem_locatedRepeats,
    mem_locatedMembers, Bool.not_eq_true] at h
  obtain ((((⟨h, rfl, rfl⟩ | ⟨i, id, h, rfl, rfl⟩) | ⟨i, id, h, rfl, rfl⟩) |
    ⟨q, i, hq, ⟨h, rfl, rfl⟩ | ⟨j, c, hc, h, rfl, rfl⟩⟩) |
    ⟨u, i, hu, ⟨h, rfl, rfl⟩ | ⟨h, rfl, rfl⟩⟩) | ⟨k, i, hk, ⟨h, rfl, rfl⟩ | ⟨h, rfl, rfl⟩⟩ := h
  · exact .grid h
  · exact .course h
  · exact .room h
  · exact .curriculum ⟨by simp [hq], h⟩
  · exact .member hq hc h
  · exact .unavailabilityCourse hu h
  · exact .unavailabilitySlot hu h
  · exact .constraintCourse hk h
  · exact .constraintRoom hk h

theorem mem_located {p : Place} {d : Defect} : (p, d) ∈ r.located ↔ r.DefectAt p d := by
  refine ⟨defectAt_of_mem_located, fun h => ?_⟩
  have hnumbered : ∀ {α : Type} {xs : List α} {f : α × Nat → List (Place × Defect)} {a i},
      xs[i]? = some a → (p, d) ∈ f (a, i) → (p, d) ∈ xs.zipIdx.flatMap f := fun ha hf =>
    List.mem_flatMap.2 ⟨_, List.mem_zipIdx_iff_getElem?.2 ha, hf⟩
  simp only [located, List.mem_append, or_assoc]
  cases h with
  | grid h => exact .inl (by simp [h])
  | course h => exact .inr (.inl (mem_locatedRepeats.2 ⟨_, _, h, rfl, rfl⟩))
  | room h => exact .inr (.inr (.inl (mem_locatedRepeats.2 ⟨_, _, h, rfl, rfl⟩)))
  | curriculum h =>
    obtain ⟨hid, hseen⟩ := h
    rw [List.getElem?_map] at hid
    obtain ⟨q, hq, rfl⟩ := Option.map_eq_some_iff.1 hid
    exact .inr (.inr (.inr (.inl (hnumbered hq (by simp [locatedCurriculum, hseen])))))
  | member hq hc h =>
    refine .inr (.inr (.inr (.inl (hnumbered hq (List.mem_append_right _ ?_)))))
    exact mem_locatedMembers.2 ⟨_, _, hc, h, rfl, rfl⟩
  | unavailabilityCourse hu h =>
    exact .inr (.inr (.inr (.inr (.inl (hnumbered hu (by simp [locatedUnavailability, h]))))))
  | unavailabilitySlot hu h =>
    exact .inr (.inr (.inr (.inr (.inl (hnumbered hu (by simp [locatedUnavailability, h]))))))
  | constraintCourse hk h =>
    exact .inr (.inr (.inr (.inr (.inr (hnumbered hk (by simp [locatedConstraint, h]))))))
  | constraintRoom hk h =>
    exact .inr (.inr (.inr (.inr (.inr (hnumbered hk (by simp [locatedConstraint, h]))))))

/-! ### Their order -/

/-- Places in order, the positions of all of them starting in the same way. -/
structure OrderedIn (start : List Nat) (es : List (Place × Defect)) : Prop where
  ordered : es.Pairwise fun e e' => e.1.Before e'.1
  start_eq : ∀ e ∈ es, ∃ rest, e.1.position = start ++ rest

/-- Places in order, all of them in lists before this one. -/
structure OrderedBelow (k : Nat) (es : List (Place × Defect)) : Prop where
  ordered : es.Pairwise fun e e' => e.1.Before e'.1
  below : ∀ e ∈ es, ∃ j < k, ∃ rest, e.1.position = j :: rest

theorem OrderedBelow.append {k : Nat} {es es' : List (Place × Defect)} (h : OrderedBelow k es)
    (h' : OrderedIn [k] es') : OrderedBelow (k + 1) (es ++ es') where
  ordered := by
    refine List.pairwise_append.2 ⟨h.ordered, h'.ordered, ?_⟩
    intro e he e' he'
    obtain ⟨j, hj, _, hposition⟩ := h.below e he
    obtain ⟨_, hposition'⟩ := h'.start_eq e' he'
    simp [Place.Before, hposition, hposition', List.cons_lt_cons_iff, hj]
  below e he := by
    rcases List.mem_append.1 he with he | he
    · obtain ⟨j, hj, hposition⟩ := h.below e he
      exact ⟨j, Nat.lt_succ_of_lt hj, hposition⟩
    · exact ⟨k, Nat.lt_succ_self k, h'.start_eq e he⟩

theorem orderedIn_locatedRepeats {place : Nat → Place} {defect : String → Defect} {k : Nat}
    (hplace : ∀ i, (place i).position = [k, i]) (ids : List String) :
    OrderedIn [k] (locatedRepeats place defect ids) where
  ordered := List.pairwise_map.2 <| ((pairwise_snd_zipIdx ids).filter _).imp fun h => by
    simp [Place.Before, hplace, List.cons_lt_cons_iff, h]
  start_eq := by
    rintro ⟨p, d⟩ he
    obtain ⟨i, id, -, rfl, rfl⟩ := mem_locatedRepeats.1 he
    exact ⟨[i], hplace i⟩

/-- What is told of one record after the other is in order when it is for each record. -/
theorem orderedIn_flatMap_zipIdx {α : Type} {f : α × Nat → List (Place × Defect)} {k : Nat}
    (hf : ∀ e, OrderedIn [k, e.2] (f e)) (xs : List α) : OrderedIn [k] (xs.zipIdx.flatMap f) where
  ordered := by
    refine List.pairwise_flatMap.2 ⟨fun e _ => (hf e).ordered, (pairwise_snd_zipIdx xs).imp ?_⟩
    intro e e' hlt x hx y hy
    obtain ⟨_, hx⟩ := (hf e).start_eq x hx
    obtain ⟨_, hy⟩ := (hf e').start_eq y hy
    simp [Place.Before, hx, hy, List.cons_lt_cons_iff, hlt]
  start_eq x hx := by
    obtain ⟨e, -, hx⟩ := List.mem_flatMap.1 hx
    obtain ⟨rest, hposition⟩ := (hf e).start_eq x hx
    exact ⟨e.2 :: rest, hposition⟩

theorem orderedIn_locatedMembers (q : CurriculumRecord) (i : Nat) :
    OrderedIn [3, i] (r.locatedMembers q i) where
  ordered := List.pairwise_map.2 <| ((pairwise_snd_zipIdx q.members).filter _).imp fun h => by
    simp [Place.Before, Place.position, List.cons_lt_cons_iff, h]
  start_eq := by
    rintro ⟨p, d⟩ he
    obtain ⟨j, c, -, -, rfl, -⟩ := mem_locatedMembers.1 he
    exact ⟨[j], rfl⟩

theorem orderedIn_locatedCurriculum (seen : List String) (q : CurriculumRecord) (i : Nat) :
    OrderedIn [3, i] (r.locatedCurriculum seen q i) := by
  have hmembers := orderedIn_locatedMembers (r := r) q i
  rw [locatedCurriculum]
  split
  · refine ⟨List.pairwise_cons.2 ⟨?_, hmembers.ordered⟩,
      List.forall_mem_cons.2 ⟨⟨[], rfl⟩, hmembers.start_eq⟩⟩
    rintro ⟨p, d⟩ he
    obtain ⟨j, c, -, -, rfl, -⟩ := mem_locatedMembers.1 he
    simp [Place.Before, Place.position]
  · exact hmembers

theorem orderedIn_locatedUnavailability (u : Unavailability) (i : Nat) :
    OrderedIn [4, i] (r.locatedUnavailability u i) := by
  rw [locatedUnavailability]
  constructor <;> split <;> split <;> simp [Place.Before, Place.position, List.cons_lt_cons_iff]

theorem orderedIn_locatedConstraint (k : RoomConstraint) (i : Nat) :
    OrderedIn [5, i] (r.locatedConstraint k i) := by
  rw [locatedConstraint]
  constructor <;> split <;> split <;> simp [Place.Before, Place.position, List.cons_lt_cons_iff]

theorem ordered_located (r : Records) : r.located.Pairwise fun e e' => e.1.Before e'.1 := by
  have hgrid : OrderedBelow 1 (if r.days = 0 ∨ r.periods = 0 then
      [(Place.grid, Defect.emptyGrid r.days r.periods)] else []) := by
    constructor <;> split <;> simp [Place.position]
  have hcourses : OrderedIn [1] (locatedRepeats .course .repeatedCourse (r.courses.map Course.id)) :=
    orderedIn_locatedRepeats (fun _ => rfl) _
  have hrooms : OrderedIn [2] (locatedRepeats .room .repeatedRoom (r.rooms.map Room.id)) :=
    orderedIn_locatedRepeats (fun _ => rfl) _
  have hcurricula := orderedIn_flatMap_zipIdx (fun e => orderedIn_locatedCurriculum (r := r)
    ((r.curricula.map CurriculumRecord.id).take e.2) e.1 e.2) r.curricula
  have hunavailabilities := orderedIn_flatMap_zipIdx
    (fun e => orderedIn_locatedUnavailability (r := r) e.1 e.2) r.unavailabilities
  have hconstraints := orderedIn_flatMap_zipIdx
    (fun e => orderedIn_locatedConstraint (r := r) e.1 e.2) r.roomConstraints
  exact (((((hgrid.append hcourses).append hrooms).append hcurricula).append
    hunavailabilities).append hconstraints).ordered

/-! ### What resolving makes of them -/

/-- Every identifier that is looked up when the records are resolved stands for something. -/
structure Resolvable (r : Records) : Prop where
  member : ∀ q ∈ r.curricula, ∀ c ∈ q.members, ∃ n, r.courseNumber? c = some n
  unavailability : ∀ u ∈ r.unavailabilities, ∃ n, r.courseNumber? u.course = some n
  constraint : ∀ k ∈ r.roomConstraints,
    (∃ n, r.courseNumber? k.course = some n) ∧ ∃ n, r.roomNumber? k.room = some n

theorem Valid.resolvable (h : r.Valid) : r.Resolvable := by
  have hcourse : ∀ {c}, r.hasCourse c = true → ∃ n, r.courseNumber? c = some n := fun hc =>
    Option.isSome_iff_exists.1 ((r.courseNumber?_isSome _).trans hc)
  have hroom : ∀ {x}, r.hasRoom x = true → ∃ n, r.roomNumber? x = some n := fun hx =>
    Option.isSome_iff_exists.1 ((r.roomNumber?_isSome _).trans hx)
  exact ⟨fun q hq c hc => hcourse (h.members q hq c hc),
    fun u hu => hcourse (h.unavailability u hu).1,
    fun k hk => ⟨hcourse (h.roomConstraint k hk).1, hroom (h.roomConstraint k hk).2⟩⟩

theorem resolve_of_defects_ne_nil (h : r.defects ≠ []) : r.resolve = .error r.defects := by
  rw [resolve]
  cases hd : r.defects with
  | nil => exact absurd hd h
  | cons d ds => rfl

/-- A curriculum that is declared twice is told once, before the members of its second record that
    nothing declares, each mention of them by itself. -/
example : { pair with curricula := [⟨"q", []⟩, ⟨"q", ["x", "optics", "x"]⟩] }.defects =
    [.repeatedCurriculum "q", .unknownMember "q" "x", .unknownMember "q" "x"] := by decide

end Records

end Timetabling
