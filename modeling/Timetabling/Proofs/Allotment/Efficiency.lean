import Timetabling.Proofs.Allotment.Afresh
import Timetabling.Proofs.Draft.Guarded

/-! The rooms that are allotted cannot be improved for one course without harm to another. For suppose
    that others are as good for every course. The course that was served first has the best of all its
    rooms, so it has the same one there; the course that was served next has the best of those left, so
    it has the same one too; and so on to the last. In which order the courses are served does not
    matter, only that each of them gets the best of what is free. -/

namespace Timetabling

open Instance

variable {I : Instance}

/-- No course ranks the room that it has among the first ones lower than the one among the others. -/
def NoWorse (cs : List (CourseIx I)) (rs others : List (RoomIx I)) : Prop :=
  ∀ (i : Nat) (c : CourseIx I) (r x : RoomIx I), cs[i]? = some c → rs[i]? = some r →
    others[i]? = some x → preference c r ≤ preference c x

/-- Some course ranks the room that it has among the first ones higher than the one among the others. -/
def BetterForSome (cs : List (CourseIx I)) (rs others : List (RoomIx I)) : Prop :=
  ∃ (i : Nat) (c : CourseIx I) (r x : RoomIx I), cs[i]? = some c ∧ rs[i]? = some r ∧
    others[i]? = some x ∧ preference c r < preference c x

/-- The rooms are assigned so that no other assignment is better for one course and no worse for all,
    and no room that was left over is better for a course than its own. -/
structure Efficient (cs : List (CourseIx I)) (rs : List (RoomIx I)) : Prop where
  assigned : Assigned cs rs
  undominated : ∀ others, Assigned cs others → NoWorse cs others rs → ¬BetterForSome cs others rs
  left_over : ∀ (i : Nat) (c : CourseIx I) (r : RoomIx I), cs[i]? = some c → rs[i]? = some r →
    ∀ x : RoomIx I, I.isSuitable c x = true → x ∉ rs → preference c r < preference c x

variable {cs : List (CourseIx I)} {rs others : List (RoomIx I)} {s : Seating I} {c d : CourseIx I}
  {r x : RoomIx I} {i j : Nat}

/-! ### Assignments, place by place -/

namespace Assigned

theorem isSuitable (h : Assigned cs rs) (hc : cs[i]? = some c) (hr : rs[i]? = some r) :
    I.isSuitable c r = true := by
  obtain ⟨hi, rfl⟩ := List.getElem?_eq_some_iff.1 hc
  obtain ⟨hj, rfl⟩ := List.getElem?_eq_some_iff.1 hr
  exact h.suitable.get hi hj

theorem place_unique (h : Assigned cs rs) (hi : rs[i]? = some r) (hj : rs[j]? = some r) : i = j := by
  obtain ⟨hlt, -⟩ := List.getElem?_eq_some_iff.1 hi
  exact (List.getElem?_inj hlt h.nodup).1 (hi.trans hj.symm)

theorem exists_room (h : Assigned cs rs) (hc : cs[i]? = some c) : ∃ r, rs[i]? = some r := by
  obtain ⟨hi, -⟩ := List.getElem?_eq_some_iff.1 hc
  rw [h.suitable.length_eq] at hi
  exact ⟨rs[i], List.getElem?_eq_getElem hi⟩

/-- A room that was left over may be had instead. -/
theorem set (h : Assigned cs rs) (hc : cs[i]? = some c) (hx : I.isSuitable c x = true)
    (hnot : x ∉ rs) : Assigned cs (rs.set i x) where
  suitable := by
    refine List.forall₂_iff_get.2 ⟨by rw [List.length_set, h.suitable.length_eq], ?_⟩
    intro j hj hj'
    rw [List.get_eq_getElem, List.get_eq_getElem, List.getElem_set]
    split
    · rename_i hij
      obtain ⟨hi, rfl⟩ := List.getElem?_eq_some_iff.1 hc
      subst hij
      exact hx
    · exact h.suitable.get hj (by rwa [List.length_set] at hj')
  nodup := h.nodup.set hnot

end Assigned

/-! ### What is as good is the same -/

/-- The rooms that courses have are theirs among these rooms too. -/
def Agrees (s : Seating I) (rs : List (RoomIx I)) : Prop :=
  ∀ (i : Nat) (c : CourseIx I) (r : RoomIx I), s[i]? = some (c, some r) → rs[i]? = some r

theorem Agrees.set (h : Agrees s rs) (hr : rs[i]? = some r) : Agrees (s.set i (c, some r)) rs := by
  intro j d x hj
  by_cases hij : i = j
  · subst hij
    obtain ⟨hlt, -⟩ := List.getElem?_eq_some_iff.1 hj
    rw [List.length_set] at hlt
    rw [List.getElem?_set_self hlt] at hj
    rw [hr, Option.some.inj (congrArg Prod.snd (Option.some.inj hj))]
  · rw [List.getElem?_set_ne hij] at hj
    exact h j d x hj

theorem exists_of_map_snd (hall : s.map Prod.snd = rs.map some) (hr : rs[i]? = some r) :
    ∃ c, s[i]? = some (c, some r) := by
  have hget := map_snd_getElem? hall i
  rw [hr] at hget
  obtain ⟨⟨c, room?⟩, hi, rfl⟩ := Option.map_eq_some_iff.1 hget
  exact ⟨c, hi⟩

theorem getElem?_of_map_fst {room? : Option (RoomIx I)} (hs : s.map Prod.fst = cs)
    (hi : s[i]? = some (c, room?)) : cs[i]? = some c := by
  rw [← hs, List.getElem?_map, hi]
  rfl

/-- Who has a room keeps it. -/
theorem Settles.agrees (h : Settles s (.ok rs)) : Agrees s rs := by
  generalize hout : Except.ok rs = out at h
  induction h with
  | @done s rs' hall =>
    obtain rfl := Except.ok.inj hout
    intro i c r hi
    have hget := map_snd_getElem? hall i
    rw [hi] at hget
    obtain ⟨x, hx, he⟩ := Option.map_eq_some_iff.1 hget.symm
    rw [hx, he]
  | stuck => cases hout
  | @give s j d x out hturn _ _ ih =>
    intro i c r hi
    have hne : j ≠ i := by
      rintro rfl
      cases hturn.waits.symm.trans hi
    exact ih hout i c r (by rwa [List.getElem?_set_ne hne])

/-- A room that an assignment has for a course that waits is free, as long as the others agree. -/
theorem Assigned.free_of_agrees (h : Assigned cs others) (hs : s.map Prod.fst = cs)
    (hagree : Agrees s others) (hi : s[i]? = some (c, none)) (hx : others[i]? = some x) :
    x ∈ freeRooms s c := by
  refine mem_freeRooms.2 ⟨h.isSuitable (getElem?_of_map_fst hs hi) hx, ?_⟩
  intro htaken
  obtain ⟨⟨d, room?⟩, hmem, rfl⟩ := List.mem_filterMap.1 htaken
  obtain ⟨j, hj⟩ := List.getElem?_of_mem hmem
  obtain rfl := h.place_unique hx (hagree j d x hj)
  cases hi.symm.trans hj

theorem map_fst_set (hi : s[i]? = some (c, none)) :
    (s.set i (c, some r)).map Prod.fst = s.map Prod.fst := by
  obtain ⟨hlt, rfl⟩ := List.getElem?_eq_some_iff.1 (getElem?_of_map_fst rfl hi)
  rw [List.map_set, List.set_getElem_self]

/-- An assignment that is no worse for any course and that agrees so far is what the rooms settle to:
    in every round the best of the free rooms is the one that it has there. -/
theorem Settles.eq_of_noWorse (h : Settles s (.ok rs)) (hs : s.map Prod.fst = cs)
    (hothers : Assigned cs others) (hle : NoWorse cs others rs) (hagree : Agrees s others) :
    others = rs := by
  generalize hout : Except.ok rs = out at h
  induction h with
  | @done s rs' hall =>
    obtain rfl := Except.ok.inj hout
    have hlen : others.length = rs.length := by
      rw [← hothers.suitable.length_eq, ← hs, List.length_map]
      simpa using congrArg List.length hall
    refine List.ext_getElem hlen ?_
    intro i hi hi'
    obtain ⟨c, hget⟩ := exists_of_map_snd hall (List.getElem?_eq_getElem hi')
    exact (List.getElem?_eq_some_iff.1 (hagree i c _ hget)).2
  | stuck => cases hout
  | @give s i c r out hturn hbest hrest ih =>
    subst hout
    have hc := getElem?_of_map_fst hs hturn.waits
    obtain ⟨x, hx⟩ := hothers.exists_room hc
    have hr : rs[i]? = some r := by
      refine hrest.agrees i c r (List.getElem?_set_self ?_)
      exact (List.getElem?_eq_some_iff.1 hturn.waits).1
    have hxr : x = r := eq_of_preference_eq <| le_antisymm (hle i c x r hc hx hr)
      (hbest.le x (hothers.free_of_agrees hs hagree hturn.waits hx))
    exact ih ((map_fst_set hturn.waits).trans hs) (hagree.set (hxr ▸ hx)) rfl

/-! ### No improvement -/

theorem agrees_waiting (cs : List (CourseIx I)) (rs : List (RoomIx I)) :
    Agrees (cs.map fun c => (c, none)) rs := by
  intro i c r hi
  rw [List.getElem?_map] at hi
  obtain ⟨d, -, he⟩ := Option.map_eq_some_iff.1 hi
  cases congrArg Prod.snd he

theorem eq_of_noWorse_of_allot (h : allot cs = .ok rs) (hothers : Assigned cs others)
    (hle : NoWorse cs others rs) : others = rs := by
  have hsettles := settles_allot cs
  rw [h] at hsettles
  exact hsettles.eq_of_noWorse (by simp [Function.comp_def]) hothers hle (agrees_waiting cs others)

theorem not_betterForSome_self (cs : List (CourseIx I)) (rs : List (RoomIx I)) :
    ¬BetterForSome cs rs rs := by
  rintro ⟨i, c, r, x, -, hr, hx, hlt⟩
  obtain rfl := Option.some.inj (hr.symm.trans hx)
  exact lt_irrefl _ hlt

/-- To have a room that was left over instead is worse for a course. -/
theorem preference_lt_of_notMem (h : allot cs = .ok rs) (hc : cs[i]? = some c) (hr : rs[i]? = some r)
    (hx : I.isSuitable c x = true) (hnot : x ∉ rs) : preference c r < preference c x := by
  by_contra hge
  have hle : NoWorse cs (rs.set i x) rs := by
    intro j d y z hd hy hz
    by_cases hij : i = j
    · subst hij
      rw [List.getElem?_set_self (List.getElem?_eq_some_iff.1 hr).1] at hy
      obtain rfl := Option.some.inj hy
      obtain rfl := Option.some.inj (hc.symm.trans hd)
      obtain rfl := Option.some.inj (hr.symm.trans hz)
      exact not_lt.1 hge
    · rw [List.getElem?_set_ne hij] at hy
      rw [Option.some.inj (hy.symm.trans hz)]
  have hsame := eq_of_noWorse_of_allot h ((assigned_of_allot h).set hc hx hnot) hle
  refine hnot (hsame ▸ List.mem_set ?_ x)
  exact (List.getElem?_eq_some_iff.1 hr).1

/-- The rooms that are allotted cannot be exchanged for others that are no worse for any course and
    better for one. -/
theorem efficient_of_allot (h : allot cs = .ok rs) : Efficient cs rs where
  assigned := assigned_of_allot h
  undominated others hothers hle := by
    rw [eq_of_noWorse_of_allot h hothers hle]
    exact not_betterForSome_self cs rs
  left_over _ _ _ hc hr _ := preference_lt_of_notMem h hc hr

/-- Five courses get five rooms; three of them would rank another room higher. -/
theorem efficient_of_allot_quintet :
    allot (List.finRange quintet.courses.size) = .ok
      [⟨0, by decide⟩, ⟨3, by decide⟩, ⟨1, by decide⟩, ⟨4, by decide⟩, ⟨2, by decide⟩] ∧
    Efficient (List.finRange quintet.courses.size)
      [⟨0, by decide⟩, ⟨3, by decide⟩, ⟨1, by decide⟩, ⟨4, by decide⟩, ⟨2, by decide⟩] :=
  ⟨by decide, efficient_of_allot (by decide)⟩

end Timetabling
