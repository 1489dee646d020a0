import Mathlib.Data.Fintype.Card
import Mathlib.Data.List.Forall2
import Mathlib.Data.List.Perm.Subperm
import Timetabling.Allotment

/-! Rooms that are allotted suit the courses that they are allotted to, and no room is allotted twice.
    Of a request that was not served the rooms still open are just the suitable ones that were not
    given out. Every round serves one such request out of its open rooms, so after as many rounds as
    there are courses nobody is left without a room. A course at which the rounds stop lost its last
    open room to a rival that had no other either, so both together have fewer suitable rooms than
    there are courses. -/

namespace Timetabling

open Instance

variable {I : Instance}

/-- The rooms that were given out, request by request. -/
def granted (qs : List (Request I)) : List (RoomIx I) := qs.filterMap Request.given

/-- The suitable rooms of the course that are not among those given out, ascending. -/
def openRooms (rs : List (RoomIx I)) (c : CourseIx I) : List (RoomIx I) :=
  (suitableRooms c).filter fun r => r ∉ rs

variable {c : CourseIx I} {cs : List (CourseIx I)} {r : RoomIx I} {rs : List (RoomIx I)}
  {q : Request I} {qs : List (Request I)}

/-! ### Open rooms -/

@[simp]
theorem Instance.mem_suitableRooms : r ∈ suitableRooms c ↔ I.isSuitable c r = true := by
  simp [suitableRooms]

theorem Instance.nodup_suitableRooms (c : CourseIx I) : (suitableRooms c).Nodup :=
  (List.nodup_finRange _).filter _

theorem mem_openRooms : r ∈ openRooms rs c ↔ I.isSuitable c r = true ∧ r ∉ rs := by
  simp [openRooms]

@[simp]
theorem openRooms_nil (c : CourseIx I) : openRooms [] c = suitableRooms c := by simp [openRooms]

theorem openRooms_congr {rs' : List (RoomIx I)} (h : ∀ r, r ∈ rs ↔ r ∈ rs') (c : CourseIx I) :
    openRooms rs c = openRooms rs' c :=
  List.filter_congr fun r _ => by simp [h r]

theorem erase_openRooms (rs : List (RoomIx I)) (c : CourseIx I) (r : RoomIx I) :
    (openRooms rs c).erase r = openRooms (r :: rs) c := by
  have hnd : (openRooms rs c).Nodup := (nodup_suitableRooms c).filter _
  rw [hnd.erase_eq_filter, openRooms, openRooms, List.filter_filter]
  exact List.filter_congr fun x _ => by simp [bne, beq_eq_decide]

/-! ### Requests -/

namespace Request

/-- The request is right about itself when these rooms were given out. -/
structure Sound (rs : List (RoomIx I)) (q : Request I) : Prop where
  suitable : ∀ r, q.given = some r → I.isSuitable q.course r = true
  choices_eq : q.given = none → q.choices = openRooms rs q.course
  left_eq : q.given = none → q.left = q.choices.length

theorem sound_ofCourse (c : CourseIx I) : (ofCourse c).Sound [] where
  suitable _ hr := nomatch hr
  choices_eq _ := (openRooms_nil c).symm
  left_eq _ := rfl

@[simp]
theorem course_strike (r : RoomIx I) (q : Request I) : (q.strike r).course = q.course := by
  unfold strike
  split <;> rfl

@[simp]
theorem given_strike (r : RoomIx I) (q : Request I) : (q.strike r).given = q.given := by
  unfold strike
  split <;> rfl

/-- A room that goes to another course is no longer open. -/
theorem choices_strike (hq : q.given = none) (r : RoomIx I) :
    (q.strike r).choices = q.choices.erase r := by
  by_cases hr : r ∈ q.choices
  · simp [strike, hq, hr]
  · simp [strike, hq, hr, List.erase_of_not_mem hr]

theorem left_strike (hq : q.given = none) (hleft : q.left = q.choices.length) (r : RoomIx I) :
    (q.strike r).left = (q.choices.erase r).length := by
  by_cases hr : r ∈ q.choices
  · simp [strike, hq, hr, hleft]
  · simp [strike, hq, hr, hleft, List.erase_of_not_mem hr]

theorem Sound.strike (h : q.Sound rs) (r : RoomIx I) : (q.strike r).Sound (r :: rs) where
  suitable x hx := by
    rw [course_strike]
    exact h.suitable x (by rwa [given_strike] at hx)
  choices_eq hq := by
    rw [given_strike] at hq
    rw [choices_strike hq, h.choices_eq hq, erase_openRooms, course_strike]
  left_eq hq := by
    rw [given_strike] at hq
    rw [left_strike hq (h.left_eq hq), choices_strike hq]

theorem Sound.congr (h : q.Sound rs) {rs' : List (RoomIx I)} (hrs : ∀ r, r ∈ rs ↔ r ∈ rs') :
    q.Sound rs' where
  suitable := h.suitable
  choices_eq hq := by rw [h.choices_eq hq, openRooms_congr hrs]
  left_eq := h.left_eq

/-- A request that was served takes no notice of what others get. -/
theorem strike_of_served (hq : q.given ≠ none) (r : RoomIx I) : q.strike r = q := by
  simp [strike, hq]

end Request

/-! ### The first of those that are least -/

/-- In a list that is in order, what is not more than the minimum is the minimum or comes after it. -/
theorem eq_or_rel_of_minOn? {α β : Type} [LE β] [DecidableLE β] [Std.IsLinearPreorder β] {f : α → β}
    {R : α → α → Prop} {xs : List α} {a b : α} (hxs : xs.Pairwise R) (ha : xs.minOn? f = some a)
    (hb : b ∈ xs) (hle : f b ≤ f a) : b = a ∨ R a b := by
  induction xs generalizing a with
  | nil => cases hb
  | cons y ys ih =>
    obtain ⟨hy, hys⟩ := List.pairwise_cons.1 hxs
    rw [List.minOn?_cons, Option.some.injEq] at ha
    cases hmin : ys.minOn? f with
    | none =>
      have hnil : ys = [] := by
        by_contra hne
        simpa [hmin] using (List.isSome_minOn?_iff (f := f)).2 hne
      subst hnil
      obtain rfl : y = a := by simpa [hmin] using ha
      exact .inl (List.mem_singleton.1 hb)
    | some z =>
      rw [hmin, Option.elim_some, minOn] at ha
      split at ha
      · subst ha
        exact (List.mem_cons.1 hb).imp_right (hy b)
      · subst ha
        refine ih hys hmin ((List.mem_cons.1 hb).resolve_left ?_) hle
        rintro rfl
        contradiction

/-! ### One round -/

/-- The number of requests not served. -/
def unserved (qs : List (Request I)) : Nat := qs.countP fun q => q.given.isNone

/-- A request was served when it was given a room. -/
theorem unserved_add_length_granted (qs : List (Request I)) :
    unserved qs + (granted qs).length = qs.length := by
  induction qs with
  | nil => rfl
  | cons q qs ih =>
    cases hq : q.given with
    | none => simp [unserved, granted, hq] at ih ⊢; omega
    | some r => simp [unserved, granted, hq] at ih ⊢; omega

theorem unserved_map_strike (qs : List (Request I)) (r : RoomIx I) :
    unserved (qs.map (Request.strike r)) = unserved qs := by
  simp [unserved, List.countP_map, Function.comp_def]

theorem granted_map_strike (qs : List (Request I)) (r : RoomIx I) :
    granted (qs.map (Request.strike r)) = granted qs := by
  simp [granted, List.filterMap_map]

/-- Serving changes one request and strikes the room from all of them. -/
theorem serve_append_cons (xs ys : List (Request I)) (q : Request I) (r : RoomIx I) :
    serve (xs ++ q :: ys) xs.length r =
      (xs ++ { q with given := some r } :: ys).map (Request.strike r) := by
  have h : ∀ xs : List (Request I), (xs ++ q :: ys).modify xs.length
      (fun q => { q with given := some r }) = xs ++ { q with given := some r } :: ys := fun xs => by
    induction xs with
    | nil => rfl
    | cons x xs ih => simp [ih]
  rw [serve, h]

/-- What is different after the request got the room. -/
structure Served (qs : List (Request I)) (q : Request I) (r : RoomIx I) (qs' : List (Request I)) :
    Prop where
  courses : qs'.map Request.course = qs.map Request.course
  granted : (granted qs').Perm (r :: granted qs)
  unserved : unserved qs' + 1 = unserved qs
  winner : { q with given := some r } ∈ qs'
  kept : ∀ y ∈ qs, y.given ≠ none → y ∈ qs'
  mem : ∀ x ∈ qs', x = { q with given := some r } ∨ ∃ y ∈ qs, y.strike r = x

theorem served_serve {i : Nat} (hi : qs[i]? = some q) (hq : q.given = none) (r : RoomIx I) :
    Served qs q r (serve qs i r) := by
  obtain ⟨hlt, rfl⟩ := List.getElem?_eq_some_iff.1 hi
  obtain ⟨xs, ys, hlen, hqs⟩ : ∃ xs ys, xs.length = i ∧ qs = xs ++ qs[i] :: ys :=
    ⟨qs.take i, qs.drop (i + 1), by simp; omega, by simp⟩
  generalize qs[i] = q at *
  subst hqs hlen
  have hwinner : Request.strike r { q with given := some r } = { q with given := some r } :=
    Request.strike_of_served (Option.some_ne_none r) r
  rw [serve_append_cons]
  refine ⟨by simp [Function.comp_def], ?_, ?_, ?_, ?_, ?_⟩
  · rw [granted_map_strike]
    simp [Timetabling.granted, hq, List.perm_middle]
  · rw [unserved_map_strike]
    simp [Timetabling.unserved, List.countP_append, hq]
    omega
  · exact List.mem_map.2 ⟨_, List.mem_append_right _ (List.mem_cons_self ..), hwinner⟩
  · intro y hy hne
    refine List.mem_map.2 ⟨y, ?_, Request.strike_of_served hne r⟩
    rcases List.mem_append.1 hy with hy | hy
    · exact List.mem_append_left _ hy
    · rcases List.mem_cons.1 hy with rfl | hy
      · exact absurd hq hne
      · exact List.mem_append_right _ (List.mem_cons_of_mem _ hy)
  · intro x hx
    obtain ⟨y, hy, rfl⟩ := List.mem_map.1 hx
    rcases List.mem_append.1 hy with hy | hy
    · exact .inr ⟨y, List.mem_append_left _ hy, rfl⟩
    · rcases List.mem_cons.1 hy with rfl | hy
      · exact .inl hwinner
      · exact .inr ⟨y, List.mem_append_right _ (List.mem_cons_of_mem _ hy), rfl⟩

/-- Requests of these courses, in this order, that are right about the rooms given out so far. No
    room was given out twice, and a request that ran out of rooms has a rival: one that was served and
    would have no open room either. -/
structure RequestsOf (cs : List (CourseIx I)) (qs : List (Request I)) : Prop where
  courses : qs.map Request.course = cs
  sound : ∀ q ∈ qs, q.Sound (granted qs)
  nodup : (granted qs).Nodup
  rival : ∀ q ∈ qs, q.given = none → openRooms (granted qs) q.course = [] →
    suitableRooms q.course = [] ∨ ∃ p ∈ qs, p.given ≠ none ∧ openRooms (granted qs) p.course = []

theorem granted_ofCourse (cs : List (CourseIx I)) : granted (cs.map Request.ofCourse) = [] := by
  simp [granted, Request.ofCourse]

theorem requestsOf_ofCourse (cs : List (CourseIx I)) : RequestsOf cs (cs.map Request.ofCourse) where
  courses := by simp [Request.ofCourse, Function.comp_def]
  sound q hq := by
    obtain ⟨c, -, rfl⟩ := List.mem_map.1 hq
    rw [granted_ofCourse]
    exact Request.sound_ofCourse c
  nodup := by
    rw [granted_ofCourse]
    exact List.nodup_nil
  rival q _ _ hnil := by
    rw [granted_ofCourse, openRooms_nil] at hnil
    exact .inl hnil

/-- A request from which the room takes the last open one had it alone, and so had the request that
    gets it, for it had no more to choose from. -/
theorem openRooms_of_last {x : Request I} (hq : q.Sound rs) (hx : x.Sound rs)
    (hqnone : q.given = none) (hxnone : x.given = none) (hle : q.left ≤ x.left) (hr : r ∈ q.choices)
    (hlast : openRooms rs x.course = [r]) : openRooms (r :: rs) q.course = [] := by
  rw [← hx.choices_eq hxnone] at hlast
  have hlen : q.choices.length ≤ 1 := by
    rw [← hq.left_eq hqnone]
    refine hle.trans ?_
    rw [hx.left_eq hxnone, hlast, List.length_singleton]
  obtain ⟨r', hsingle⟩ := List.length_eq_one_iff.1
    (Nat.le_antisymm hlen (List.length_pos_of_mem hr))
  rw [hsingle, List.mem_singleton] at hr
  subst hr
  rw [← erase_openRooms, ← hq.choices_eq hqnone, hsingle, List.erase_cons_head]

/-- Requests stay right when one of those with the fewest open rooms gets one of them. -/
theorem RequestsOf.served (h : RequestsOf cs qs) (hqs : q ∈ qs) (hq : q.given = none)
    (hmin : ∀ x ∈ qs, x.given = none → q.left ≤ x.left) (hr : r ∈ q.choices)
    {qs' : List (Request I)} (hserved : Served qs q r qs') : RequestsOf cs qs' where
  courses := hserved.courses.trans h.courses
  sound x hx := by
    refine Request.Sound.congr ?_ fun x => hserved.granted.mem_iff.symm
    rcases hserved.mem x hx with rfl | ⟨y, hy, rfl⟩
    · refine ⟨?_, nofun, nofun⟩
      intro r' hr'
      obtain rfl := Option.some.inj hr'
      rw [(h.sound q hqs).choices_eq hq] at hr
      exact (mem_openRooms.1 hr).1
    · exact (h.sound y hy).strike r
  nodup := by
    rw [(h.sound q hqs).choices_eq hq] at hr
    exact hserved.granted.nodup_iff.2 (List.nodup_cons.2 ⟨(mem_openRooms.1 hr).2, h.nodup⟩)
  rival x hx hxnone hnil := by
    have hopen : ∀ c, openRooms (granted qs') c = (openRooms (granted qs) c).erase r := fun c => by
      rw [erase_openRooms, openRooms_congr fun x => hserved.granted.mem_iff]
    simp only [hopen] at hnil ⊢
    rcases hserved.mem x hx with rfl | ⟨y, hy, rfl⟩
    · cases hxnone
    rw [Request.given_strike] at hxnone
    rw [Request.course_strike] at hnil ⊢
    rcases List.erase_eq_nil_iff.1 hnil with hempty | hlast
    · refine (h.rival y hy hxnone hempty).imp_right ?_
      rintro ⟨p, hp, hgiven, hrival⟩
      exact ⟨p, hserved.kept p hp hgiven, hgiven, by rw [hrival, List.erase_nil]⟩
    · have hnone := openRooms_of_last (h.sound q hqs) (h.sound y hy) hq hxnone (hmin y hy hxnone) hr hlast
      rw [← erase_openRooms] at hnone
      exact .inr ⟨_, hserved.winner, Option.some_ne_none r, hnone⟩

theorem neediest?_eq_some {i : Nat} (h : neediest? qs = some (q, i)) :
    qs[i]? = some q ∧ q.given = none := by
  have hmem := List.mem_filter.1 (List.minOn?_mem h)
  exact ⟨List.mem_zipIdx_iff_getElem?.1 hmem.1, by simpa using hmem.2⟩

theorem left_le_of_neediest? {i : Nat} (h : neediest? qs = some (q, i)) {x : Request I}
    (hx : x ∈ qs) (hnone : x.given = none) : q.left ≤ x.left := by
  obtain ⟨j, hj⟩ := List.getElem?_of_mem hx
  have hmem : (x, j) ∈ qs.zipIdx.filter fun q => q.1.given.isNone :=
    List.mem_filter.2 ⟨List.mem_zipIdx_iff_getElem?.2 hj, by simp [hnone]⟩
  have hle := List.apply_get_minOn?_le_of_mem (f := fun q : Request I × Nat => q.1.left) hmem
  rw [neediest?] at h
  simpa [h] using hle

theorem neediest?_eq_none (h : neediest? qs = none) : unserved qs = 0 := by
  have hnil : (qs.zipIdx.filter fun q => q.1.given.isNone) = [] := by
    by_contra hne
    have hsome := List.isSome_minOn?_iff (f := fun q : Request I × Nat => q.1.left).2 hne
    rw [neediest?] at h
    rw [h] at hsome
    cases hsome
  refine List.countP_eq_zero.2 ?_
  intro q hq
  obtain ⟨i, hi⟩ := List.getElem?_of_mem hq
  exact List.filter_eq_nil_iff.1 hnil (q, i) (List.mem_zipIdx_iff_getElem?.2 hi)

/-! ### Rounds -/

/-- Rounds that fail were stopped by a request that was not served and has no open room. -/
def StoppedBy (cs : List (CourseIx I)) (c : CourseIx I) : Prop :=
  ∃ qs, RequestsOf cs qs ∧ ∃ q ∈ qs, q.course = c ∧ q.given = none ∧ q.choices = []

theorem Request.best?_eq_none (h : q.best? = none) : q.choices = [] := by
  by_contra hne
  have hsome := List.isSome_minOn?_iff (f := fitOf q.course).2 hne
  rw [best?] at h
  rw [h] at hsome
  cases hsome

theorem RequestsOf.serveRounds_cases (h : RequestsOf cs qs) {n : Nat} (hn : unserved qs ≤ n) :
    (∃ qs', serveRounds n qs = .ok qs' ∧ RequestsOf cs qs' ∧ unserved qs' = 0) ∨
      ∃ c, serveRounds n qs = .error c ∧ StoppedBy cs c := by
  induction n generalizing qs with
  | zero => exact .inl ⟨qs, rfl, h, Nat.le_zero.1 hn⟩
  | succ n ih =>
    cases hpick : neediest? qs with
    | none => exact .inl ⟨qs, by simp [serveRounds, hpick], h, neediest?_eq_none hpick⟩
    | some pick =>
      obtain ⟨q, i⟩ := pick
      obtain ⟨hi, hq⟩ := neediest?_eq_some hpick
      cases hbest : q.best? with
      | none =>
        refine .inr ⟨q.course, by simp [serveRounds, hpick, hbest], qs, h, q, ?_, rfl, hq,
          Request.best?_eq_none hbest⟩
        exact List.mem_of_getElem? hi
      | some r =>
        have hserved := served_serve hi hq r
        have h' := h.served (List.mem_of_getElem? hi) hq (fun _ => left_le_of_neediest? hpick)
          (List.minOn?_mem hbest) hserved
        have hcount := hserved.unserved
        simpa [serveRounds, hpick, hbest] using ih h' (by omega)

/-- Requests that are all served give one suitable room to each course. -/
theorem RequestsOf.suitable (h : RequestsOf cs qs) (hqs : unserved qs = 0) :
    List.Forall₂ (fun (c : CourseIx I) (r : RoomIx I) => I.isSuitable c r = true) cs (granted qs) := by
  obtain ⟨rfl, hsound, -, -⟩ := h
  have hsuit : ∀ q ∈ qs, ∀ r, q.given = some r → I.isSuitable q.course r = true :=
    fun q hq => (hsound q hq).suitable
  clear hsound
  induction qs with
  | nil => exact .nil
  | cons q qs ih =>
    rw [unserved, List.countP_cons] at hqs
    cases hq : q.given with
    | none => simp [hq] at hqs
    | some r =>
      rw [List.map_cons, granted, List.filterMap_cons_some hq]
      refine .cons (hsuit q (by simp) r hq) (ih ?_ fun x hx => hsuit x (by simp [hx]))
      unfold unserved
      omega

/-! ### Allotments -/

theorem allot_cases (cs : List (CourseIx I)) :
    (∃ qs, allot cs = .ok (granted qs) ∧ RequestsOf cs qs ∧ unserved qs = 0) ∨
      ∃ c, allot cs = .error c ∧ StoppedBy cs c := by
  have hn : unserved (cs.map Request.ofCourse) ≤ cs.length := by
    rw [← List.length_map (f := Request.ofCourse)]
    exact List.countP_le_length
  rcases (requestsOf_ofCourse cs).serveRounds_cases hn with ⟨qs, hok, hqs, hall⟩ | ⟨c, herror, hc⟩
  · exact .inl ⟨qs, by simp [allot, hok, Except.map, granted], hqs, hall⟩
  · exact .inr ⟨c, by simp [allot, herror, Except.map], hc⟩

theorem allottable_of_allot (h : allot cs = .ok rs) : allottable cs = true := by
  rw [allottable, h]
  rfl

theorem not_allottable_of_allot (h : allot cs = .error c) : ¬allottable cs = true := by
  rw [allottable, h]
  exact Bool.false_ne_true

/-- An allotment gives one suitable room to each course. -/
theorem suitable_of_allot (h : allot cs = .ok rs) :
    List.Forall₂ (fun (c : CourseIx I) (r : RoomIx I) => I.isSuitable c r = true) cs rs := by
  rcases allot_cases cs with ⟨qs, hok, hqs, hall⟩ | ⟨c, herror, -⟩
  · obtain rfl : granted qs = rs := by simpa [hok] using h
    exact hqs.suitable hall
  · simp [herror] at h

/-- No room is allotted twice. -/
theorem nodup_of_allot (h : allot cs = .ok rs) : rs.Nodup := by
  rcases allot_cases cs with ⟨qs, hok, hqs, -⟩ | ⟨c, herror, -⟩
  · obtain rfl : granted qs = rs := by simpa [hok] using h
    exact hqs.nodup
  · simp [herror] at h

/-- When the rounds stop, all suitable rooms of the course were given out, to fewer than all courses. -/
theorem StoppedBy.exists_requests (h : StoppedBy cs c) : ∃ qs, RequestsOf cs qs ∧
    (granted qs).length < cs.length ∧ ∃ q ∈ qs, q.course = c ∧ q.given = none ∧
      openRooms (granted qs) c = [] := by
  obtain ⟨qs, hqs, q, hmem, rfl, hq, hnil⟩ := h
  refine ⟨qs, hqs, ?_, q, hmem, rfl, hq, (hqs.sound q hmem).choices_eq hq ▸ hnil⟩
  have hpos : 0 < unserved qs := List.countP_pos_iff.2 ⟨q, hmem, by simp [hq]⟩
  have hsum := unserved_add_length_granted qs
  rw [← hqs.courses, List.length_map]
  omega

theorem stoppedBy_of_allot (h : allot cs = .error c) : StoppedBy cs c := by
  rcases allot_cases cs with ⟨qs, hok, -⟩ | ⟨c', herror, hc'⟩
  · simp [hok] at h
  · obtain rfl : c' = c := by simpa [herror] using h
    exact hc'

theorem mem_of_openRooms_eq_nil (h : openRooms rs c = []) (hr : I.isSuitable c r = true) : r ∈ rs := by
  by_contra hnot
  have hopen := mem_openRooms.2 ⟨hr, hnot⟩
  rw [h] at hopen
  cases hopen

/-- A course that gets no room is one of those that ask, and there are more of them than rooms that
    suit it. -/
theorem lt_length_of_allot (h : allot cs = .error c) :
    c ∈ cs ∧ (suitableRooms c).length < cs.length := by
  obtain ⟨qs, hqs, hlt, q, hmem, rfl, -, hnil⟩ := (stoppedBy_of_allot h).exists_requests
  refine ⟨hqs.courses ▸ List.mem_map_of_mem hmem, lt_of_le_of_lt ?_ hlt⟩
  refine (List.subperm_of_subset (nodup_suitableRooms _) ?_).length_le
  intro r hr
  exact mem_of_openRooms_eq_nil hnil (mem_suitableRooms.1 hr)

/-- The rooms that suit one or the other course. -/
def roomsOfEither (c d : CourseIx I) : Finset (RoomIx I) :=
  Finset.univ.filter fun r => I.isSuitable c r = true ∨ I.isSuitable d r = true

theorem mem_roomsOfEither {d : CourseIx I} :
    r ∈ roomsOfEither c d ↔ I.isSuitable c r = true ∨ I.isSuitable d r = true := by
  simp [roomsOfEither]

/-- A course that gets no room although one suits it has a rival among those that ask, and there are
    more of them than rooms that suit it or its rival. -/
theorem exists_rival_of_allot (hcs : cs.Nodup) (h : allot cs = .error c)
    (hc : suitableRooms c ≠ []) : ∃ d ∈ cs, d ≠ c ∧ (roomsOfEither c d).card < cs.length := by
  obtain ⟨qs, hqs, hlt, q, hmem, rfl, hq, hnil⟩ := (stoppedBy_of_allot h).exists_requests
  obtain ⟨p, hp, hgiven, hrival⟩ := (hqs.rival q hmem hq hnil).resolve_left hc
  refine ⟨p.course, hqs.courses ▸ List.mem_map_of_mem hp, ?_, ?_⟩
  · -- one was served and the other was not, so they stand at two places of the list
    intro e
    have hinj := List.inj_on_of_nodup_map (hqs.courses ▸ hcs) hp hmem e
    exact hgiven (hinj ▸ hq)
  · calc (roomsOfEither q.course p.course).card
        ≤ (granted qs).toFinset.card := by
          refine Finset.card_le_card ?_
          intro r hr
          rw [List.mem_toFinset]
          rcases mem_roomsOfEither.1 hr with hr | hr
          · exact mem_of_openRooms_eq_nil hnil hr
          · exact mem_of_openRooms_eq_nil hrival hr
      _ ≤ (granted qs).length := List.toFinset_card_le _
      _ < cs.length := hlt

end Timetabling
