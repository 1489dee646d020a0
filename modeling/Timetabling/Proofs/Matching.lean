import Timetabling.Proofs.Allotment
import Timetabling.Proofs.Draft.Representation

/-! Courses that can be matched with rooms, and those for which the rounds find a matching. When the
    rounds succeed, the rooms that they give out are a matching, and what is left of it matches the
    courses that stay when others leave. The rounds need not find one for those, but they do when no
    more than three courses stay. For if the rounds fail for three of them, the first one served had
    two rooms and took the wrong one of them, and so it does among the courses that were there before,
    where it is again served before the two others. -/

namespace Timetabling

open Instance

variable {I : Instance}

/-- Each of the courses has a suitable room of its own. -/
structure Matching (cs : List (CourseIx I)) (room? : CourseIx I → Option (RoomIx I)) : Prop where
  suitable : ∀ c ∈ cs, ∃ r, room? c = some r ∧ I.isSuitable c r = true
  injective : ∀ a ∈ cs, ∀ b ∈ cs, room? a = room? b → a = b

/-- Different suitable rooms exist for the courses. -/
def Matchable (cs : List (CourseIx I)) : Prop := ∃ room?, Matching cs room?

variable {cs ds : List (CourseIx I)} {room? : CourseIx I → Option (RoomIx I)} {c d x : CourseIx I}
  {r t : RoomIx I} {qs qs' : List (Request I)}

theorem Matching.mono (h : Matching cs room?) (hsub : ds ⊆ cs) : Matching ds room? where
  suitable c hc := h.suitable c (hsub hc)
  injective a ha b hb := h.injective a (hsub ha) b (hsub hb)

theorem Matchable.mono (h : Matchable cs) (hsub : ds ⊆ cs) : Matchable ds :=
  h.imp fun _ hroom => hroom.mono hsub

/-- Two courses that are matched have two rooms to be matched with. -/
theorem Matching.exists_ne (h : Matching cs room?) (hc : c ∈ cs) (hd : d ∈ cs) (hne : c ≠ d) :
    ∃ r r', room? c = some r ∧ room? d = some r' ∧ r ≠ r' ∧ r ∈ suitableRooms c ∧
      r' ∈ suitableRooms d := by
  obtain ⟨r, hr, hsr⟩ := h.suitable c hc
  obtain ⟨r', hr', hsr'⟩ := h.suitable d hd
  refine ⟨r, r', hr, hr', ?_, mem_suitableRooms.2 hsr, mem_suitableRooms.2 hsr'⟩
  rintro rfl
  exact hne (h.injective c hc d hd (hr.trans hr'.symm))

/-- Two courses that have to share two rooms are matched with both of them. -/
theorem Matching.shared (h : Matching cs room?) (hc : c ∈ cs) (hd : d ∈ cs) (hne : c ≠ d)
    (hcsub : suitableRooms c ⊆ [t, r]) (hdsub : suitableRooms d ⊆ [t, r]) :
    ∀ x ∈ [t, r], room? c = some x ∨ room? d = some x := by
  obtain ⟨rc, rd, hrc, hrd, hne, hsc, hsd⟩ := h.exists_ne hc hd hne
  have hmemc := hcsub hsc
  have hmemd := hdsub hsd
  simp only [List.mem_cons, List.not_mem_nil, or_false] at hmemc hmemd ⊢
  rw [hrc, hrd]
  rcases hmemc with rfl | rfl <;> rcases hmemd with rfl | rfl <;> simp_all

/-! ### What the requests say of the rooms -/

/-- The room that the course was given. -/
def roomGiven? (qs : List (Request I)) (c : CourseIx I) : Option (RoomIx I) :=
  (qs.find? fun q => q.course = c).bind Request.given

namespace RequestsOf

theorem inj (h : RequestsOf cs qs) (hcs : cs.Nodup) {p q : Request I} (hp : p ∈ qs) (hq : q ∈ qs)
    (he : p.course = q.course) : p = q :=
  List.inj_on_of_nodup_map (h.courses ▸ hcs) hp hq he

theorem exists_request (h : RequestsOf cs qs) (hc : c ∈ cs) : ∃ q ∈ qs, q.course = c := by
  rw [← h.courses] at hc
  exact List.mem_map.1 hc

theorem roomGiven?_eq (h : RequestsOf cs qs) (hcs : cs.Nodup) {q : Request I} (hq : q ∈ qs) :
    roomGiven? qs q.course = q.given := by
  obtain ⟨p, hp⟩ := Option.isSome_iff_exists.1
    (List.find?_isSome.2 ⟨q, hq, by simp⟩ : (qs.find? fun p => p.course = q.course).isSome = true)
  have hcourse : p.course = q.course := by simpa using List.find?_some hp
  rw [roomGiven?, hp, h.inj hcs (List.mem_of_find?_eq_some hp) hq hcourse]
  rfl

theorem mem_granted_iff (h : RequestsOf cs qs) (hcs : cs.Nodup) :
    r ∈ granted qs ↔ ∃ c ∈ cs, roomGiven? qs c = some r := by
  rw [granted, List.mem_filterMap]
  constructor
  · rintro ⟨q, hq, hr⟩
    exact ⟨q.course, h.courses ▸ List.mem_map_of_mem hq, by rw [h.roomGiven?_eq hcs hq, hr]⟩
  · rintro ⟨c, hc, hr⟩
    obtain ⟨q, hq, rfl⟩ := h.exists_request hc
    exact ⟨q, hq, by rw [← h.roomGiven?_eq hcs hq, hr]⟩

/-- Rooms that were given out to everybody are a matching. -/
theorem matching (h : RequestsOf cs qs) (hcs : cs.Nodup) (hall : unserved qs = 0) :
    Matching cs (roomGiven? qs) where
  suitable c hc := by
    obtain ⟨q, hq, rfl⟩ := h.exists_request hc
    rw [h.roomGiven?_eq hcs hq]
    cases hr : q.given with
    | none => exact absurd hr (by simpa using List.countP_eq_zero.1 hall q hq)
    | some r => exact ⟨r, rfl, (h.sound q hq).suitable r hr⟩
  injective a ha b hb he := by
    obtain ⟨p, hp, rfl⟩ := h.exists_request ha
    obtain ⟨q, hq, rfl⟩ := h.exists_request hb
    rw [h.roomGiven?_eq hcs hp, h.roomGiven?_eq hcs hq] at he
    cases hr : p.given with
    | none => exact absurd hr (by simpa using List.countP_eq_zero.1 hall p hp)
    | some r =>
      by_contra hne
      have hsymm : Std.Symm fun a b : Request I =>
          ∀ r, a.given = some r → ∀ r', b.given = some r' → r ≠ r' :=
        ⟨fun _ _ hab _ hb _ ha => (hab _ ha _ hb).symm⟩
      have hapart := (List.pairwise_filterMap.1 h.nodup).forall hp hq
        fun e => hne (congrArg Request.course e)
      exact hapart r hr r (he ▸ hr) rfl

end RequestsOf

theorem roomGiven?_ofCourse (hcs : cs.Nodup) (hc : c ∈ cs) :
    roomGiven? (cs.map Request.ofCourse) c = none :=
  (requestsOf_ofCourse cs).roomGiven?_eq hcs (List.mem_map_of_mem hc)

/-- One round: the course is the first of those with the fewest open rooms, and it gets the best of
    them. -/
structure Round (cs : List (CourseIx I)) (qs : List (Request I)) (c : CourseIx I) (r : RoomIx I)
    (qs' : List (Request I)) : Prop where
  mem : c ∈ cs
  waits : roomGiven? qs c = none
  least : ∀ d ∈ cs, roomGiven? qs d = none →
    (openRooms (granted qs) c).length ≤ (openRooms (granted qs) d).length
  first : ∀ d ∈ cs, roomGiven? qs d = none →
    (openRooms (granted qs) d).length ≤ (openRooms (granted qs) c).length → d = c ∨ c < d
  best : (openRooms (granted qs) c).minOn? (fitOf c) = some r
  requests : RequestsOf cs qs'
  mem_granted : ∀ x, x ∈ granted qs' ↔ x = r ∨ x ∈ granted qs
  room_eq : ∀ d ∈ cs, roomGiven? qs' d = if d = c then some r else roomGiven? qs d

/-- A course that waits after a round was not served in it and waited before. -/
theorem Round.of_waits (h : Round cs qs c r qs') (hd : d ∈ cs) (hwaits : roomGiven? qs' d = none) :
    d ≠ c ∧ roomGiven? qs d = none := by
  rw [h.room_eq d hd] at hwaits
  split at hwaits
  · cases hwaits
  · exact ⟨‹_›, hwaits⟩

/-- The neediest request is the first of those that need as much. -/
theorem RequestsOf.eq_or_lt_of_neediest? (h : RequestsOf cs qs) (hcs : Ascending Fin.val cs)
    {p q : Request I} {i : Nat} (hpick : neediest? qs = some (q, i)) (hp : p ∈ qs)
    (hwaits : p.given = none) (hle : p.left ≤ q.left) :
    p.course = q.course ∨ q.course < p.course := by
  obtain ⟨j, hj⟩ := List.getElem?_of_mem hp
  have hordered : (qs.zipIdx.filter fun p => p.1.given.isNone).Pairwise
      fun p p' => p.1.course < p'.1.course := by
    refine .filter _ ((List.pairwise_map (f := Prod.fst)
      (R := fun p p' : Request I => p.course < p'.course)).1 ?_)
    rw [List.zipIdx_map_fst]
    exact List.pairwise_map.1 (h.courses ▸ hcs)
  have hpj : (p, j) ∈ qs.zipIdx.filter fun p => p.1.given.isNone :=
    List.mem_filter.2 ⟨List.mem_zipIdx_iff_getElem?.2 hj, by simp [hwaits]⟩
  refine (eq_or_rel_of_minOn? hordered hpick hpj hle).imp_left ?_
  intro e
  rw [(Prod.mk.inj e).1]

theorem RequestsOf.round (h : RequestsOf cs qs) (hcs : Ascending Fin.val cs) {q : Request I} {i : Nat}
    (hpick : neediest? qs = some (q, i)) (hbest : q.best? = some r) :
    Round cs qs q.course r (serve qs i r) := by
  obtain ⟨hi, hq⟩ := neediest?_eq_some hpick
  have hmem := List.mem_of_getElem? hi
  have hserved := served_serve hi hq r
  have h' := h.served hmem hq (fun _ => left_le_of_neediest? hpick) (List.minOn?_mem hbest) hserved
  have hopen : ∀ p ∈ qs, p.given = none → p.left = (openRooms (granted qs) p.course).length :=
    fun p hp hnone => by rw [(h.sound p hp).left_eq hnone, (h.sound p hp).choices_eq hnone]
  refine ⟨h.courses ▸ List.mem_map_of_mem hmem, by rw [h.roomGiven?_eq hcs.nodup hmem, hq], ?_, ?_,
    ?_, h', fun x => by rw [hserved.granted.mem_iff, List.mem_cons], ?_⟩
  · intro d hd hwaits
    obtain ⟨p, hp, rfl⟩ := h.exists_request hd
    rw [h.roomGiven?_eq hcs.nodup hp] at hwaits
    rw [← hopen p hp hwaits, ← hopen q hmem hq]
    exact left_le_of_neediest? hpick hp hwaits
  · intro d hd hwaits hle
    obtain ⟨p, hp, rfl⟩ := h.exists_request hd
    rw [h.roomGiven?_eq hcs.nodup hp] at hwaits
    rw [← hopen p hp hwaits, ← hopen q hmem hq] at hle
    exact h.eq_or_lt_of_neediest? hcs hpick hp hwaits hle
  · rw [← (h.sound q hmem).choices_eq hq]
    exact hbest
  · intro d hd
    obtain ⟨p, hp, rfl⟩ := h'.exists_request hd
    rw [h'.roomGiven?_eq hcs.nodup hp]
    split
    · rename_i he
      rw [h'.inj hcs.nodup hp hserved.winner he]
    · rename_i hne
      rcases hserved.mem p hp with rfl | ⟨y, hy, rfl⟩
      · exact absurd rfl hne
      · rw [Request.course_strike, Request.given_strike, h.roomGiven?_eq hcs.nodup hy]

namespace RequestsOf

/-- Rounds that fail make so many rounds more and then come to a course that has no room left. -/
theorem serveRounds_error (h : RequestsOf cs qs) (hcs : Ascending Fin.val cs) {n : Nat}
    (herror : serveRounds n qs = .error x) : ∃ m, n = m + 1 ∧
      ((x ∈ cs ∧ roomGiven? qs x = none ∧ openRooms (granted qs) x = []) ∨
        ∃ c r next, Round cs qs c r next ∧ serveRounds m next = .error x) := by
  cases n with
  | zero => cases herror
  | succ m =>
    refine ⟨m, rfl, ?_⟩
    cases hpick : neediest? qs with
    | none => simp [serveRounds, hpick] at herror
    | some pick =>
      obtain ⟨q, i⟩ := pick
      cases hbest : q.best? with
      | none =>
        obtain rfl : q.course = x := by simpa [serveRounds, hpick, hbest] using herror
        obtain ⟨hi, hq⟩ := neediest?_eq_some hpick
        have hmem := List.mem_of_getElem? hi
        refine .inl ⟨h.courses ▸ List.mem_map_of_mem hmem, ?_, ?_⟩
        · rw [h.roomGiven?_eq hcs.nodup hmem, hq]
        · rw [← (h.sound q hmem).choices_eq hq, Request.best?_eq_none hbest]
      | some r =>
        exact .inr ⟨_, r, _, h.round hcs hpick hbest, by simpa [serveRounds, hpick, hbest] using herror⟩

/-- Rounds that succeed are over, or make one round more. -/
theorem serveRounds_ok (h : RequestsOf cs qs) (hcs : Ascending Fin.val cs) {n : Nat}
    (hok : serveRounds n qs = .ok qs') : qs' = qs ∨
      ∃ m c r next, n = m + 1 ∧ Round cs qs c r next ∧ serveRounds m next = .ok qs' := by
  cases n with
  | zero => exact .inl (Except.ok.inj hok).symm
  | succ m =>
    cases hpick : neediest? qs with
    | none => exact .inl (by simpa [serveRounds, hpick] using hok.symm)
    | some pick =>
      obtain ⟨q, i⟩ := pick
      cases hbest : q.best? with
      | none => simp [serveRounds, hpick, hbest] at hok
      | some r =>
        exact .inr ⟨m, _, r, _, rfl, h.round hcs hpick hbest,
          by simpa [serveRounds, hpick, hbest] using hok⟩

/-- What was given out is not taken back. -/
theorem roomGiven?_serveRounds (h : RequestsOf cs qs) (hcs : Ascending Fin.val cs) {n : Nat}
    (hok : serveRounds n qs = .ok qs') (hc : c ∈ cs) (hr : roomGiven? qs c = some r) :
    roomGiven? qs' c = some r := by
  induction n generalizing qs with
  | zero =>
    obtain rfl := Except.ok.inj hok
    exact hr
  | succ n ih =>
    rcases h.serveRounds_ok hcs hok with rfl | ⟨m, d, t, next, hm, hround, hok⟩
    · exact hr
    · obtain rfl := Nat.succ.inj hm
      refine ih hround.requests hok ?_
      rw [hround.room_eq c hc, if_neg, hr]
      rintro rfl
      rw [hround.waits] at hr
      cases hr

end RequestsOf

/-- Courses that wait before rounds that succeed and give everybody a room of their own. -/
structure Pending (cs ds : List (CourseIx I)) (n : Nat) (qs qs' : List (Request I)) : Prop where
  requests : RequestsOf cs qs
  ok : serveRounds n qs = .ok qs'
  matching : Matching cs (roomGiven? qs')
  mem : ∀ d ∈ ds, d ∈ cs
  waits : ∀ d ∈ ds, roomGiven? qs d = none

namespace Pending

variable {n : Nat}

theorem ne (h : Pending cs ds n qs qs') (hc : c ∈ ds) : qs' ≠ qs := by
  rintro rfl
  obtain ⟨r, hr, -⟩ := h.matching.suitable c (h.mem c hc)
  rw [h.waits c hc] at hr
  cases hr

/-- The room that a waiting course has in the end was not given out before. -/
theorem notMem_granted (h : Pending cs ds n qs qs') (hcs : Ascending Fin.val cs) (hc : c ∈ ds)
    (hr : roomGiven? qs' c = some r) : r ∉ granted qs := by
  intro hgranted
  obtain ⟨d, hd, hdr⟩ := (h.requests.mem_granted_iff hcs.nodup).1 hgranted
  have hdr' := h.requests.roomGiven?_serveRounds hcs h.ok hd hdr
  obtain rfl := h.matching.injective d hd c (h.mem c hc) (hdr'.trans hr.symm)
  rw [h.waits d hc] at hdr
  cases hdr

end Pending

/-! ### Three courses that stay -/

theorem length_le_of_subset {α : Type} {xs ys : List α} (hx : xs.Nodup) (h : xs ⊆ ys) :
    xs.length ≤ ys.length :=
  (List.subperm_of_subset hx h).length_le

/-- A course that takes its best room, before others are asked, from two courses that have to share
    this room and one more. -/
structure Misled (a x y : CourseIx I) (t w : RoomIx I) : Prop where
  best : (suitableRooms a).minOn? (fitOf a) = some t
  lt_left : a < x
  lt_right : a < y
  ne : x ≠ y
  length_le_two : (suitableRooms a).length ≤ 2
  two_le_left : 2 ≤ (suitableRooms x).length
  two_le_right : 2 ≤ (suitableRooms y).length
  left_subset : suitableRooms x ⊆ [t, w]
  right_subset : suitableRooms y ⊆ [t, w]

theorem openRooms_eq_suitableRooms {rs : List (RoomIx I)} (h : ∀ r ∈ suitableRooms c, r ∉ rs) :
    openRooms rs c = suitableRooms c :=
  List.filter_eq_self.2 fun r hr => by simp [h r hr]

namespace Misled

variable {a y : CourseIx I} {w : RoomIx I}

/-- The three cannot be matched when the first has the room that it takes. -/
theorem ne_of_matching (h : Misled a x y t w) (hroom : Matching cs room?) (hx : x ∈ cs) (hy : y ∈ cs)
    (ha : a ∈ cs) : room? a ≠ some t ∧ ∀ r ∈ [t, w], room? x = some r ∨ room? y = some r := by
  have hshared := hroom.shared hx hy h.ne h.left_subset h.right_subset
  refine ⟨?_, hshared⟩
  intro hat
  rcases hshared t (List.mem_cons_self ..) with hxt | hyt
  · exact h.lt_left.ne (hroom.injective a ha x hx (hat.trans hxt.symm))
  · exact h.lt_right.ne (hroom.injective a ha y hy (hat.trans hyt.symm))

/-- As long as all three wait, the rooms of the two stay open, and so do those of the first: it has
    only the room that it takes and the one that it gets in the end. -/
theorem openRooms_eq (h : Misled a x y t w) (hcs : Ascending Fin.val cs) {n : Nat}
    (hp : Pending cs [a, x, y] n qs qs') :
    ∀ d ∈ [a, x, y], openRooms (granted qs) d = suitableRooms d := by
  have ha := hp.mem a (by simp)
  obtain ⟨hat, hshared⟩ := h.ne_of_matching hp.matching (hp.mem x (by simp)) (hp.mem y (by simp)) ha
  have hfree : ∀ r ∈ [t, w], r ∉ granted qs := fun r hr =>
    (hshared r hr).elim (hp.notMem_granted hcs (by simp)) (hp.notMem_granted hcs (by simp))
  obtain ⟨ra, hra, hsa⟩ := hp.matching.suitable a ha
  simp only [List.mem_cons, List.not_mem_nil, or_false]
  rintro d (rfl | rfl | rfl) <;> refine openRooms_eq_suitableRooms ?_
  · intro r hr hgranted
    have htr : t ∈ suitableRooms d := List.minOn?_mem h.best
    have hne : ra ≠ t := fun e => hat (e ▸ hra)
    have hrt : r ≠ t := fun e => hfree t (List.mem_cons_self ..) (e ▸ hgranted)
    have hrra : r ≠ ra := fun e => hp.notMem_granted hcs (List.mem_cons_self ..) hra (e ▸ hgranted)
    have hthree : [r, ra, t].length ≤ (suitableRooms d).length :=
      length_le_of_subset (by simp [hrra, hrt, hne]) (by simp [hr, mem_suitableRooms.1 htr, hsa])
    exact absurd (hthree.trans h.length_le_two) (by simp)
  · exact fun r hr => hfree r (h.left_subset hr)
  · exact fun r hr => hfree r (h.right_subset hr)

/-- None of the three is served in a round that does not mislead the first: it is asked before the
    other two, and takes the wrong room. -/
theorem notMem_of_round (h : Misled a x y t w) (hround : Round cs qs c r qs')
    (ha : a ∈ cs) (hwaits : roomGiven? qs a = none)
    (hopen : ∀ d ∈ [a, x, y], openRooms (granted qs) d = suitableRooms d) (hr : c = a → r ≠ t) :
    c ∉ [a, x, y] := by
  have hopena := hopen a (by simp)
  simp only [List.mem_cons, List.not_mem_nil, or_false, not_or]
  refine ⟨?_, ?_, ?_⟩
  · rintro rfl
    have hbest := hround.best
    rw [hopena, h.best] at hbest
    exact hr rfl (Option.some.inj hbest).symm
  · rintro rfl
    have hle := h.length_le_two.trans h.two_le_left
    rw [← hopena, ← hopen c (by simp)] at hle
    exact (hround.first a ha hwaits hle).elim h.lt_left.ne fun hlt => lt_asymm hlt h.lt_left
  · rintro rfl
    have hle := h.length_le_two.trans h.two_le_right
    rw [← hopena, ← hopen c (by simp)] at hle
    exact (hround.first a ha hwaits hle).elim h.lt_right.ne fun hlt => lt_asymm hlt h.lt_right

/-- Rounds do not succeed when the first of the three is asked together with the others. -/
theorem not_pending (h : Misled a x y t w) (hcs : Ascending Fin.val cs) (n : Nat) :
    ¬Pending cs [a, x, y] n qs qs' := by
  induction n generalizing qs with
  | zero => exact fun hp => hp.ne (List.mem_cons_self ..) (Except.ok.inj hp.ok).symm
  | succ n ih =>
    intro hp
    rcases hp.requests.serveRounds_ok hcs hp.ok with rfl | ⟨m, c, r, next, hm, hround, hok⟩
    · exact hp.ne (List.mem_cons_self ..) rfl
    obtain rfl := Nat.succ.inj hm
    have ha := hp.mem a (by simp)
    have hcr := hround.requests.roomGiven?_serveRounds hcs hok hround.mem
      (by rw [hround.room_eq c hround.mem, if_pos rfl])
    have hmiss : c ∉ [a, x, y] := by
      refine h.notMem_of_round hround ha (hp.waits a (by simp)) (h.openRooms_eq hcs hp) ?_
      rintro rfl rfl
      exact (h.ne_of_matching hp.matching (hp.mem x (by simp)) (hp.mem y (by simp)) ha).1 hcr
    refine ih ⟨hround.requests, hok, hp.matching, hp.mem, ?_⟩
    intro d hd
    rw [hround.room_eq d (hp.mem d hd), if_neg (ne_of_mem_of_not_mem hd hmiss), hp.waits d hd]

end Misled

/-- A course with no more than the one room that went to another is not matched, for the other had no
    more either. -/
theorem Matching.openRooms_ne_nil {a : CourseIx I} (h : Matching cs room?) (ha : a ∈ cs) (hx : x ∈ cs)
    (hne : x ≠ a) (ht : t ∈ suitableRooms a)
    (hle : (suitableRooms a).length ≤ (suitableRooms x).length) : openRooms [t] x ≠ [] := by
  intro hnil
  have hsub : suitableRooms x ⊆ [t] := fun r hr =>
    mem_of_openRooms_eq_nil hnil (mem_suitableRooms.1 hr)
  obtain ⟨ra, rx, -, -, hapart, hsa, hsx⟩ := h.exists_ne ha hx hne.symm
  have hrx := List.mem_singleton.1 (hsub hsx)
  have htwo : [ra, t].length ≤ (suitableRooms a).length :=
    length_le_of_subset (by simpa using hrx ▸ hapart) (by simp [hsa, ht])
  have hone := length_le_of_subset (nodup_suitableRooms x) hsub
  exact absurd (htwo.trans (hle.trans hone)) (by simp)

/-- When a third course is left without a room by the two that were served before it, the first of
    them was misled. -/
theorem Matching.misled {a y : CourseIx I} {w : RoomIx I} (h : Matching cs room?) (ha : a ∈ cs)
    (hx : x ∈ cs) (hy : y ∈ cs) (hxa : x ≠ a) (hya : y ≠ a) (hxy : x ≠ y)
    (hbest : (suitableRooms a).minOn? (fitOf a) = some t)
    (hfirst : ∀ d ∈ [x, y], (suitableRooms a).length ≤ (suitableRooms d).length ∧
      ((suitableRooms d).length ≤ (suitableRooms a).length → a < d))
    (hw : w ∈ openRooms [t] y) (hle : (openRooms [t] y).length ≤ (openRooms [t] x).length)
    (hnil : openRooms [w, t] x = []) : Misled a x y t w := by
  obtain ⟨hleastx, hfirstx⟩ := hfirst x (by simp)
  obtain ⟨hleasty, hfirsty⟩ := hfirst y (by simp)
  have hsubx : suitableRooms x ⊆ [t, w] := fun r hr => by
    simpa [or_comm] using mem_of_openRooms_eq_nil hnil (mem_suitableRooms.1 hr)
  have hone : (openRooms [t] x).length ≤ [w].length := by
    refine length_le_of_subset ((nodup_suitableRooms x).filter _) ?_
    intro r hr
    obtain ⟨hsr, hrt⟩ := mem_openRooms.1 hr
    exact List.mem_of_ne_of_mem (by simpa using hrt) (hsubx (mem_suitableRooms.2 hsr))
  have hsuby : suitableRooms y ⊆ [t, w] := by
    intro r hr
    by_contra hnot
    simp only [List.mem_cons, List.not_mem_nil, or_false, not_or] at hnot
    have hopen : r ∈ openRooms [t] y := mem_openRooms.2 ⟨mem_suitableRooms.1 hr, by simpa using hnot.1⟩
    have htwo : [r, w].length ≤ (openRooms [t] y).length :=
      length_le_of_subset (by simpa using hnot.2) (by simp [hopen, hw])
    exact absurd (htwo.trans (hle.trans hone)) (by simp)
  have hshared := h.shared hx hy hxy hsubx hsuby
  -- the first course is matched with a room other than these two
  obtain ⟨ra, hra, hsa⟩ := h.suitable a ha
  have hrat : ra ≠ t := by
    rintro rfl
    rcases hshared ra (List.mem_cons_self ..) with hxr | hyr
    · exact hxa (h.injective x hx a ha (hxr.trans hra.symm))
    · exact hya (h.injective y hy a ha (hyr.trans hra.symm))
  have hta : t ∈ suitableRooms a := List.minOn?_mem hbest
  have htwo : [ra, t].length ≤ (suitableRooms a).length :=
    length_le_of_subset (by simpa using hrat) (by simp [hsa, mem_suitableRooms.1 hta])
  have hlex := length_le_of_subset (nodup_suitableRooms x) hsubx
  have hley := length_le_of_subset (nodup_suitableRooms y) hsuby
  exact ⟨hbest, hfirstx (hlex.trans htwo), hfirsty (hley.trans htwo), hxy, hleastx.trans hlex,
    htwo.trans hleastx, htwo.trans hleasty, hsubx, hsuby⟩

/-- When the rounds fail for no more than three courses that can be matched, the first one that was
    served was misled. -/
theorem exists_misled (hcs : Ascending Fin.val cs) (hlen : cs.length ≤ 3)
    (hroom : Matching cs room?) (herror : allot cs = .error x) :
    ∃ a ∈ cs, ∃ y ∈ cs, x ∈ cs ∧ ∃ t w, Misled a x y t w := by
  have h₀ := requestsOf_ofCourse cs
  have hrounds : serveRounds cs.length (cs.map Request.ofCourse) = .error x := by
    cases hs : serveRounds cs.length (cs.map Request.ofCourse) with
    | ok qs => simp [allot, hs, Except.map] at herror
    | error c => simpa [allot, hs, Except.map] using herror
  have hgranted₀ := granted_ofCourse cs
  have hwaits₀ := fun c hc => roomGiven?_ofCourse hcs.nodup (c := c) hc
  generalize cs.map Request.ofCourse = qs₀ at h₀ hrounds hgranted₀ hwaits₀
  -- the first round serves a course, since every course has a suitable room
  obtain ⟨n₁, hn₁, ⟨hx, -, hnil⟩ | ⟨a, t, qs₁, hround₁, hrounds⟩⟩ := h₀.serveRounds_error hcs hrounds
  · obtain ⟨r, -, hr⟩ := hroom.suitable x hx
    rw [hgranted₀, openRooms_nil] at hnil
    exact absurd (mem_suitableRooms.2 hr) (by simp [hnil])
  have hopen₁ : ∀ c, openRooms (granted qs₁) c = openRooms [t] c :=
    openRooms_congr fun r => by simp [hround₁.mem_granted, hgranted₀]
  have hbest := hround₁.best
  have hleast := hround₁.least
  have hfirst := hround₁.first
  simp only [hgranted₀, openRooms_nil] at hbest hleast hfirst
  -- so does the second: otherwise two courses have one room
  obtain ⟨n₂, hn₂, ⟨hx, hwx, hnil⟩ | ⟨y, w, qs₂, hround₂, hrounds⟩⟩ :=
    hround₁.requests.serveRounds_error hcs hrounds
  · rw [hopen₁] at hnil
    exact absurd hnil (hroom.openRooms_ne_nil hround₁.mem hx (hround₁.of_waits hx hwx).1
      (List.minOn?_mem hbest) (hleast x hx (hwaits₀ x hx)))
  have hopen₂ : ∀ c, openRooms (granted qs₂) c = openRooms [w, t] c :=
    openRooms_congr fun r => by simp [hround₂.mem_granted, hround₁.mem_granted, hgranted₀]
  -- the third does not, and there is no fourth
  obtain ⟨n₃, hn₃, ⟨hx, hwx, hnil⟩ | ⟨_, _, _, hround₃, hrounds⟩⟩ :=
    hround₂.requests.serveRounds_error hcs hrounds
  · obtain ⟨hxy, hwx₁⟩ := hround₂.of_waits hx hwx
    have hxa := (hround₁.of_waits hx hwx₁).1
    have hya := (hround₁.of_waits hround₂.mem hround₂.waits).1
    have hbest₂ := hround₂.best
    have hleast₂ := hround₂.least x hx hwx₁
    rw [hopen₁] at hbest₂
    rw [hopen₁, hopen₁] at hleast₂
    rw [hopen₂] at hnil
    refine ⟨a, hround₁.mem, y, hround₂.mem, hx, t, w, hroom.misled hround₁.mem hx hround₂.mem hxa hya
      hxy hbest ?_ (List.minOn?_mem hbest₂) hleast₂ hnil⟩
    have hbefore : ∀ d ∈ cs, d ≠ a → (suitableRooms a).length ≤ (suitableRooms d).length ∧
        ((suitableRooms d).length ≤ (suitableRooms a).length → a < d) := fun d hd hne =>
      ⟨hleast d hd (hwaits₀ d hd), fun hle => (hfirst d hd (hwaits₀ d hd) hle).resolve_left hne⟩
    simp only [List.mem_cons, List.not_mem_nil, or_false]
    rintro d (rfl | rfl)
    · exact hbefore d hx hxa
    · exact hbefore d hround₂.mem hya
  · obtain ⟨_, hn₄, -⟩ := hround₃.requests.serveRounds_error hcs hrounds
    omega

/-- What the rounds give out when they succeed is a matching. -/
theorem exists_matching_of_allottable (hcs : cs.Nodup) (h : allottable cs = true) :
    ∃ qs, serveRounds cs.length (cs.map Request.ofCourse) = .ok qs ∧
      Matching cs (roomGiven? qs) := by
  have hn : unserved (cs.map Request.ofCourse) ≤ cs.length := by
    rw [← List.length_map (f := Request.ofCourse)]
    exact List.countP_le_length
  rcases (requestsOf_ofCourse cs).serveRounds_cases hn with ⟨qs, hok, hqs, hall⟩ | ⟨c, herror, -⟩
  · exact ⟨qs, hok, hqs.matching hcs hall⟩
  · exact absurd h (not_allottable_of_allot (c := c) (by simp [allot, herror, Except.map]))

theorem matchable_of_allottable (hcs : cs.Nodup) (h : allottable cs = true) : Matchable cs := by
  obtain ⟨qs, -, hroom⟩ := exists_matching_of_allottable hcs h
  exact ⟨_, hroom⟩

/-- Of courses that got rooms together, no more than three that stay get rooms again. -/
theorem allottable_of_subset (hcs : Ascending Fin.val cs) (hds : Ascending Fin.val ds) (hsub : ds ⊆ cs)
    (hlen : ds.length ≤ 3) (h : allottable cs = true) : allottable ds = true := by
  obtain ⟨qs, hok, hroom⟩ := exists_matching_of_allottable hcs.nodup h
  cases hallot : allot ds with
  | ok rs => exact allottable_of_allot hallot
  | error x =>
    obtain ⟨a, ha, y, hy, hx, t, w, hmisled⟩ := exists_misled hds hlen (hroom.mono hsub) hallot
    have hthree : ∀ d ∈ [a, x, y], d ∈ cs := by simp [hsub ha, hsub hx, hsub hy]
    exact absurd ⟨requestsOf_ofCourse cs, hok, hroom, hthree, fun d hd =>
      roomGiven?_ofCourse hcs.nodup (hthree d hd)⟩ (hmisled.not_pending hcs _)

end Timetabling
