import Mathlib.Data.Prod.Lex
import Timetabling.Proofs.Allotment.Rounds
import Timetabling.Proofs.Instance.Coherence

/-! Rooms given out without keeping any count. Nothing is remembered but who has which room; whose turn
    it is and which rooms are free is worked out afresh from the suitable rooms. The course with the
    fewest free rooms comes first, the first such course on ties, and it gets the free room that it
    ranks best. The main statement is that this leads to what is allotted and to nothing else: the
    requests, their open rooms and their counts show at any time what would be worked out. -/

namespace Timetabling

open Instance

variable {I : Instance}

/-- The courses with the rooms that they have, place by place. -/
abbrev Seating (I : Instance) := List (CourseIx I × Option (RoomIx I))

/-- The rooms that courses have. -/
def taken (s : Seating I) : List (RoomIx I) := s.filterMap Prod.snd

/-- The rooms that suit the course and that no course has. -/
def freeRooms (s : Seating I) (c : CourseIx I) : Finset (RoomIx I) :=
  (Finset.univ.filter fun r => I.isSuitable c r = true) \ (taken s).toFinset

/-- How a course ranks the rooms, the best one least: those with seats for all students before those
    without, then by the seats that are too many or too few, then by number. -/
def preference (c : CourseIx I) (r : RoomIx I) : Bool ×ₗ ℕ ×ₗ RoomIx I :=
  let students := (course c).students
  let seats := (room r).capacity
  toLex (decide (seats < students), toLex (((students : ℤ) - seats).natAbs, r))

/-- It is the turn of the course at this place: it has no room, and of all such courses it has the
    fewest free rooms and is the first. -/
structure IsNext (s : Seating I) (i : Nat) (c : CourseIx I) : Prop where
  waits : s[i]? = some (c, none)
  first : ∀ j d, s[j]? = some (d, none) →
    toLex ((freeRooms s c).card, i) ≤ toLex ((freeRooms s d).card, j)

/-- The free room that the course ranks best. -/
structure IsBest (s : Seating I) (c : CourseIx I) (r : RoomIx I) : Prop where
  mem : r ∈ freeRooms s c
  le : ∀ x ∈ freeRooms s c, preference c r ≤ preference c x

/-- What comes of giving out rooms: the room of each course, or the course that got none. -/
inductive Settles : Seating I → Except (CourseIx I) (List (RoomIx I)) → Prop
  | done {s : Seating I} {rs : List (RoomIx I)} (all : s.map Prod.snd = rs.map some) :
      Settles s (.ok rs)
  | stuck {s : Seating I} {i : Nat} {c : CourseIx I} (turn : IsNext s i c)
      (none : freeRooms s c = ∅) : Settles s (.error c)
  | give {s : Seating I} {i : Nat} {c : CourseIx I} {r : RoomIx I}
      {out : Except (CourseIx I) (List (RoomIx I))} (turn : IsNext s i c) (best : IsBest s c r)
      (rest : Settles (s.set i (c, some r)) out) : Settles s out

variable {s : Seating I} {c d : CourseIx I} {r x : RoomIx I} {i j n m : Nat} {rs : List (RoomIx I)}
  {cs : List (CourseIx I)} {q : Request I} {qs : List (Request I)}

theorem mem_freeRooms : r ∈ freeRooms s c ↔ I.isSuitable c r = true ∧ r ∉ taken s := by
  simp [freeRooms]

/-! ### One outcome -/

theorem eq_of_preference_eq (h : preference c r = preference c x) : r = x :=
  congrArg (fun p => (ofLex (ofLex p).2).2) h

theorem IsNext.unique (h : IsNext s i c) (h' : IsNext s j d) : i = j ∧ c = d := by
  have hkey := le_antisymm (h.first j d h'.waits) (h'.first i c h.waits)
  obtain rfl : i = j := congrArg (fun p => (ofLex p).2) hkey
  exact ⟨rfl, congrArg Prod.fst (Option.some.inj (h.waits.symm.trans h'.waits))⟩

theorem IsBest.unique (h : IsBest s c r) (h' : IsBest s c x) : r = x :=
  eq_of_preference_eq (le_antisymm (h.le x h'.mem) (h'.le r h.mem))

theorem map_snd_getElem? (hall : s.map Prod.snd = rs.map some) (i : Nat) :
    (s[i]?).map Prod.snd = (rs[i]?).map some := by
  rw [← List.getElem?_map, hall, List.getElem?_map]

/-- It is nobody's turn when all have rooms. -/
theorem not_isNext (hall : s.map Prod.snd = rs.map some) : ¬IsNext s i c := by
  intro h
  have hget := map_snd_getElem? hall i
  rw [h.waits] at hget
  simp at hget

theorem Settles.unique {out out' : Except (CourseIx I) (List (RoomIx I))} (h : Settles s out)
    (h' : Settles s out') : out = out' := by
  induction h with
  | done hall =>
    cases h' with
    | done hall' => rw [List.map_injective_iff.2 (Option.some_injective _) (hall.symm.trans hall')]
    | stuck hturn' _ => exact absurd hturn' (not_isNext hall)
    | give hturn' _ _ => exact absurd hturn' (not_isNext hall)
  | stuck hturn hnone =>
    cases h' with
    | done hall' => exact absurd hturn (not_isNext hall')
    | stuck hturn' _ => rw [(hturn.unique hturn').2]
    | give hturn' hbest' _ =>
      obtain ⟨rfl, rfl⟩ := hturn.unique hturn'
      exact absurd hbest'.mem (hnone ▸ Finset.notMem_empty _)
  | give hturn hbest _ ih =>
    cases h' with
    | done hall' => exact absurd hturn (not_isNext hall')
    | stuck hturn' hnone' =>
      obtain ⟨rfl, rfl⟩ := hturn.unique hturn'
      exact absurd hbest.mem (hnone' ▸ Finset.notMem_empty _)
    | give hturn' hbest' hrest' =>
      obtain ⟨rfl, rfl⟩ := hturn.unique hturn'
      obtain rfl := hbest.unique hbest'
      exact ih hrest'

/-! ### What the requests show -/

/-- The courses of the requests with the rooms that they were given. -/
def seating (qs : List (Request I)) : Seating I := qs.map fun q => (q.course, q.given)

theorem taken_seating (qs : List (Request I)) : taken (seating qs) = granted qs := by
  rw [taken, seating, List.filterMap_map]
  rfl

theorem seating_ofCourse (cs : List (CourseIx I)) :
    seating (cs.map Request.ofCourse) = cs.map fun c => (c, none) := by
  simp [seating, Request.ofCourse]

/-- Serving a request gives a room to the course at its place and strikes nothing from who has what. -/
theorem seating_serve (hi : qs[i]? = some q) (r : RoomIx I) :
    seating (serve qs i r) = (seating qs).set i (q.course, some r) := by
  have hset : qs.modify i (fun q => { q with given := some r }) =
      qs.set i { q with given := some r } := by
    simp [List.modify_eq_set_getElem?, hi]
  rw [serve, hset, seating, seating, List.map_map, List.map_set]
  simp [Function.comp_def]

theorem exists_request_of_seating (h : (seating qs)[j]? = some (d, none)) :
    ∃ p, qs[j]? = some p ∧ p.course = d ∧ p.given = none := by
  rw [seating, List.getElem?_map] at h
  obtain ⟨p, hp, he⟩ := Option.map_eq_some_iff.1 h
  exact ⟨p, hp, congrArg Prod.fst he, congrArg Prod.snd he⟩

namespace RequestsOf

variable (h : RequestsOf cs qs) (hmem : q ∈ qs) (hwaits : q.given = none)

include h hmem hwaits

/-- The rooms open to a request that waits are the free rooms of its course. -/
theorem mem_choices : x ∈ q.choices ↔ x ∈ freeRooms (seating qs) q.course := by
  rw [(h.sound q hmem).choices_eq hwaits, mem_openRooms, mem_freeRooms, taken_seating]

theorem card_freeRooms : (freeRooms (seating qs) q.course).card = q.left := by
  have hnodup : q.choices.Nodup := by
    rw [(h.sound q hmem).choices_eq hwaits]
    exact (nodup_suitableRooms _).filter _
  have hrooms : freeRooms (seating qs) q.course = q.choices.toFinset :=
    Finset.ext fun x => by rw [List.mem_toFinset, h.mem_choices hmem hwaits]
  rw [hrooms, List.toFinset_card_of_nodup hnodup, (h.sound q hmem).left_eq hwaits]

end RequestsOf

/-- The neediest request has its turn. -/
theorem RequestsOf.isNext (h : RequestsOf cs qs) (hturn : neediest? qs = some (q, i)) :
    IsNext (seating qs) i q.course := by
  obtain ⟨hi, hq⟩ := neediest?_eq_some hturn
  refine ⟨by rw [seating, List.getElem?_map, hi, Option.map_some, hq], ?_⟩
  intro j d hj
  obtain ⟨p, hp, rfl, hwaits⟩ := exists_request_of_seating hj
  have hmem := List.mem_of_getElem? hp
  have hordered : (qs.zipIdx.filter fun p => p.1.given.isNone).Pairwise fun p p' => p.2 < p'.2 :=
    (pairwise_snd_zipIdx qs).filter _
  have hpj : (p, j) ∈ qs.zipIdx.filter fun p => p.1.given.isNone :=
    List.mem_filter.2 ⟨List.mem_zipIdx_iff_getElem?.2 hp, by simp [hwaits]⟩
  rw [Prod.Lex.toLex_le_toLex, h.card_freeRooms (List.mem_of_getElem? hi) hq,
    h.card_freeRooms hmem hwaits]
  refine (left_le_of_neediest? hturn hmem hwaits).lt_or_eq.imp_right fun he => ⟨he, ?_⟩
  rcases eq_or_rel_of_minOn? hordered hturn hpj he.ge with hsame | hlt
  · exact (congrArg Prod.snd hsame).ge
  · exact hlt.le

/-- The preference is for the better fit, then for the lower number. -/
theorem preference_eq (c : CourseIx I) (r : RoomIx I) :
    preference c r = toLex ((fitOf c r).crowded, toLex ((fitOf c r).gap, r)) := by
  have hcrowded : decide ((room r).capacity < (course c).students) = (fitOf c r).crowded := by
    refine decide_eq_decide.2 ?_
    rw [Room.overflow]
    omega
  rw [← hcrowded]
  rfl

theorem preference_le_of_fitOf_le (hle : fitOf c r ≤ fitOf c x)
    (hties : fitOf c x ≤ fitOf c r → r ≤ x) : preference c r ≤ preference c x := by
  rw [preference_eq, preference_eq]
  simp only [Prod.Lex.toLex_le_toLex]
  rw [Fit.le_iff] at hle hties
  rcases hle with ⟨hr, hx⟩ | ⟨hcrowded, hgap⟩
  · exact .inl (by rw [hr, hx]; decide)
  · refine .inr ⟨hcrowded, hgap.lt_or_eq.imp_right fun he => ⟨he, ?_⟩⟩
    exact hties (.inr ⟨hcrowded.symm, he.ge⟩)

/-- The best room of a request that waits is the one that its course ranks best. -/
theorem RequestsOf.isBest (h : RequestsOf cs qs) (hmem : q ∈ qs) (hwaits : q.given = none)
    (hbest : q.best? = some r) : IsBest (seating qs) q.course r := by
  refine ⟨(h.mem_choices hmem hwaits).1 (List.minOn?_mem hbest), ?_⟩
  intro x hx
  rw [← h.mem_choices hmem hwaits] at hx
  have hordered : q.choices.Pairwise (· < ·) := by
    rw [(h.sound q hmem).choices_eq hwaits]
    exact ((List.pairwise_lt_finRange _).filter _).filter _
  have hle : fitOf q.course r ≤ fitOf q.course x := by
    have hle := List.apply_get_minOn?_le_of_mem (f := fitOf q.course) hx
    rw [Request.best?] at hbest
    simpa [hbest] using hle
  refine preference_le_of_fitOf_le hle fun hge => ?_
  exact (eq_or_rel_of_minOn? hordered hbest hx hge).elim (·.ge) (·.le)

/-! ### The outcome is the allotment -/

/-- What the requests show after some rounds is settled the way the courses are allotted rooms. -/
theorem After.settles (h : After cs n qs) (hm : n + m = cs.length) :
    Settles (seating qs) (allot cs) := by
  induction m generalizing n qs with
  | zero =>
    obtain rfl : n = cs.length := hm
    rw [h.allot_eq]
    refine .done ?_
    rw [← h.map_given, seating, List.map_map]
    rfl
  | succ m ih =>
    obtain ⟨q, i, hturn⟩ := h.exists_neediest? (by omega)
    obtain ⟨hi, hq⟩ := neediest?_eq_some hturn
    have hmem := List.mem_of_getElem? hi
    have hnext := h.requests.isNext hturn
    cases hbest : q.best? with
    | none =>
      have hstuck : Stuck cs n q := ⟨by omega, ⟨qs, i, h, hturn⟩, hbest⟩
      rw [hstuck.allot_eq]
      refine .stuck hnext (Finset.eq_empty_of_forall_notMem fun x hx => ?_)
      rw [← h.requests.mem_choices hmem hq, Request.best?_eq_none hbest] at hx
      cases hx
    | some r =>
      refine .give hnext (h.requests.isBest hmem hq hbest) ?_
      rw [← seating_serve hi]
      exact ih (h.round hturn hbest) (by omega)

theorem settles_allot (cs : List (CourseIx I)) : Settles (cs.map fun c => (c, none)) (allot cs) := by
  rw [← seating_ofCourse]
  exact After.start.settles (Nat.zero_add _)

/-- Giving out rooms with nothing remembered but who has which comes to what is allotted, a room for
    each course or a course without one, and to nothing else. -/
theorem settles_iff_allot_eq (cs : List (CourseIx I)) (out : Except (CourseIx I) (List (RoomIx I))) :
    Settles (cs.map fun c => (c, none)) out ↔ allot cs = out := by
  constructor
  · exact (settles_allot cs).unique
  · rintro rfl
    exact settles_allot cs

end Timetabling
