import Timetabling.Proofs.Allotment

/-! The rounds of an allotment, one by one. Before each of them some course still waits, so they are
    never cut short: an allotment succeeds just when it makes a round for every course, and fails just
    when in one of them the neediest course has no room left. All along the count of the rooms left to
    a course that waits is right, and it is never lowered below zero. -/

namespace Timetabling

open Instance

variable {I : Instance}

/-- The requests of the courses after so many rounds. -/
inductive After (cs : List (CourseIx I)) : Nat → List (Request I) → Prop
  | start : After cs 0 (cs.map Request.ofCourse)
  | round {n : Nat} {qs : List (Request I)} {q : Request I} {i : Nat} {r : RoomIx I}
      (before : After cs n qs) (turn : neediest? qs = some (q, i)) (best : q.best? = some r) :
      After cs (n + 1) (serve qs i r)

/-- After so many rounds it is the turn of this request, but no room is left to it. -/
structure Stuck (cs : List (CourseIx I)) (n : Nat) (q : Request I) : Prop where
  lt_length : n < cs.length
  turn : ∃ qs i, After cs n qs ∧ neediest? qs = some (q, i)
  best?_eq_none : q.best? = none

variable {cs : List (CourseIx I)} {c : CourseIx I} {rs : List (RoomIx I)} {q : Request I}
  {qs : List (Request I)} {m n : Nat}

/-! ### What every round finds -/

theorem After.requests (h : After cs n qs) : RequestsOf cs qs := by
  induction h with
  | start => exact requestsOf_ofCourse cs
  | round _ hturn hbest ih =>
    obtain ⟨hi, hq⟩ := neediest?_eq_some hturn
    exact ih.served (List.mem_of_getElem? hi) hq (fun _ => left_le_of_neediest? hturn)
      (List.minOn?_mem hbest) (served_serve hi hq _)

theorem unserved_ofCourse (cs : List (CourseIx I)) :
    unserved (cs.map Request.ofCourse) = cs.length := by
  have h := unserved_add_length_granted (cs.map Request.ofCourse)
  rwa [granted_ofCourse, List.length_nil, Nat.add_zero, List.length_map] at h

/-- Each round serves one course. -/
theorem After.unserved_add (h : After cs n qs) : unserved qs + n = cs.length := by
  induction h with
  | start => rw [unserved_ofCourse, Nat.add_zero]
  | @round n qs q i r _ hturn _ ih =>
    obtain ⟨hi, hq⟩ := neediest?_eq_some hturn
    have hserved := (served_serve hi hq r).unserved
    omega

/-- As long as rounds are to be made, some course waits. -/
theorem After.exists_neediest? (h : After cs n qs) (hn : n < cs.length) :
    ∃ q i, neediest? qs = some (q, i) := by
  cases hturn : neediest? qs with
  | none =>
    have hnone := neediest?_eq_none hturn
    have hcount := h.unserved_add
    omega
  | some pick => exact ⟨pick.1, pick.2, rfl⟩

/-! ### What the rounds come to -/

/-- From where some rounds were made, the others are made. -/
theorem After.serveRounds_eq (h : After cs n qs) (hn : n ≤ cs.length) :
    serveRounds cs.length (cs.map Request.ofCourse) = serveRounds (cs.length - n) qs := by
  induction h with
  | start => rfl
  | @round n qs q i r _ hturn hbest ih =>
    rw [ih (by omega), show cs.length - n = cs.length - (n + 1) + 1 by omega, serveRounds]
    simp only [hturn, hbest]

/-- The rounds that are left are made, unless one of them finds no room. -/
theorem After.complete_or_stuck (h : After cs n qs) (hm : n + m = cs.length) :
    (∃ qs', After cs cs.length qs') ∨ ∃ k q, Stuck cs k q := by
  induction m generalizing n qs with
  | zero =>
    obtain rfl : n = cs.length := hm
    exact .inl ⟨qs, h⟩
  | succ m ih =>
    obtain ⟨q, i, hturn⟩ := h.exists_neediest? (by omega)
    cases hbest : q.best? with
    | none => exact .inr ⟨n, q, by omega, ⟨qs, i, h, hturn⟩, hbest⟩
    | some r => exact ih (h.round hturn hbest) (by omega)

theorem After.allot_eq (h : After cs cs.length qs) : allot cs = .ok (granted qs) := by
  rw [allot, h.serveRounds_eq le_rfl, Nat.sub_self]
  rfl

theorem Stuck.allot_eq (h : Stuck cs n q) : allot cs = .error q.course := by
  obtain ⟨hn, ⟨qs, i, hqs, hturn⟩, hbest⟩ := h
  rw [allot, hqs.serveRounds_eq hn.le, show cs.length - n = cs.length - (n + 1) + 1 by omega]
  simp only [serveRounds, hturn, hbest]
  rfl

theorem complete_or_stuck (cs : List (CourseIx I)) :
    (∃ qs, After cs cs.length qs) ∨ ∃ n q, Stuck cs n q :=
  After.start.complete_or_stuck (Nat.zero_add _)

/-- When every round was made, each request was given a room, and none drops out of the result. -/
theorem After.map_given (h : After cs cs.length qs) :
    qs.map Request.given = (granted qs).map some := by
  have hall : ∀ q ∈ qs, q.given.isSome = true := by
    have hcount := h.unserved_add
    have hzero : unserved qs = 0 := by omega
    simpa [unserved, Option.isSome_iff_ne_none] using hzero
  clear h
  induction qs with
  | nil => rfl
  | cons q qs ih =>
    obtain ⟨r, hr⟩ := Option.isSome_iff_exists.1 (hall q (List.mem_cons_self ..))
    have hrest := ih fun p hp => hall p (List.mem_cons_of_mem _ hp)
    rw [granted, List.filterMap_cons_some hr, List.map_cons, List.map_cons, hr, hrest]
    rfl

/-! ### The account of an allotment -/

/-- What the next round finds in the requests. -/
structure Balanced (cs : List (CourseIx I)) (n : Nat) (qs : List (Request I)) : Prop where
  /-- The requests are those of the courses, place by place. -/
  courses : qs.map Request.course = cs
  /-- A round that is to be made finds a course that waits. -/
  exists_turn : n < cs.length → ∃ q i, neediest? qs = some (q, i)
  /-- The count of a request that waits is the number of the rooms still open to it. -/
  left_eq : ∀ q ∈ qs, q.given = none → q.left = q.choices.length
  /-- A count that is lowered is not zero. -/
  left_pos : ∀ q ∈ qs, q.given = none → ∀ r ∈ q.choices, 0 < q.left

theorem After.balanced (h : After cs n qs) : Balanced cs n qs where
  courses := h.requests.courses
  exists_turn := h.exists_neediest?
  left_eq q hq := (h.requests.sound q hq).left_eq
  left_pos q hq hnone r hr := by
    rw [(h.requests.sound q hq).left_eq hnone]
    exact List.length_pos_of_mem hr

/-- A suitable room for each of the courses, place by place, and none for two of them. -/
structure Assigned (cs : List (CourseIx I)) (rs : List (RoomIx I)) : Prop where
  suitable : List.Forall₂ (fun (c : CourseIx I) (r : RoomIx I) => I.isSuitable c r = true) cs rs
  nodup : rs.Nodup

theorem assigned_of_allot (h : allot cs = .ok rs) : Assigned cs rs :=
  ⟨suitable_of_allot h, nodup_of_allot h⟩

/-- What an allotment is worth, and how it comes about. -/
structure Accounted (cs : List (CourseIx I)) : Prop where
  assigned : ∀ rs, allot cs = .ok rs → Assigned cs rs
  eq_ok_iff : ∀ rs, allot cs = .ok rs ↔
    ∃ qs, After cs cs.length qs ∧ qs.map Request.given = rs.map some
  eq_error_iff : ∀ c, allot cs = .error c ↔ ∃ n q, Stuck cs n q ∧ q.course = c
  balanced : ∀ n qs, After cs n qs → Balanced cs n qs

/-- Whatever the courses, repeated ones and any order of them included, what is allotted is a suitable
    room for each and none twice. It takes a round for every course, none of which is left out, and
    before each of them the counts are right. -/
theorem accounted_allot (cs : List (CourseIx I)) : Accounted cs where
  assigned _ := assigned_of_allot
  eq_ok_iff rs := by
    constructor
    · intro h
      rcases complete_or_stuck cs with ⟨qs, hqs⟩ | ⟨n, q, hq⟩
      · obtain rfl : granted qs = rs := Except.ok.inj (hqs.allot_eq.symm.trans h)
        exact ⟨qs, hqs, hqs.map_given⟩
      · cases hq.allot_eq.symm.trans h
    · rintro ⟨qs, hqs, hgiven⟩
      rw [hqs.map_given] at hgiven
      rw [hqs.allot_eq, List.map_injective_iff.2 (Option.some_injective _) hgiven]
  eq_error_iff c := by
    constructor
    · intro h
      rcases complete_or_stuck cs with ⟨qs, hqs⟩ | ⟨n, q, hq⟩
      · cases hqs.allot_eq.symm.trans h
      · exact ⟨n, q, hq, Except.error.inj (hq.allot_eq.symm.trans h)⟩
    · rintro ⟨n, q, hq, rfl⟩
      exact hq.allot_eq
  balanced _ _ h := h.balanced

end Timetabling
