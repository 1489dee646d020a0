import Timetabling.Proofs.Construction.Pass

/-! Building makes one pass after another until a pass succeeds or the limit is reached. What it gives is
    a timetable with every lecture, or word that lectures have no room at all, or the course that the
    last of all passes was stuck at. It makes no pass at all when the number of lectures comes out as
    zero. This is the number of all lectures as long as it is below `2 ^ 64`; lectures whose number is a
    multiple of it are not placed. -/

namespace Timetabling

open Instance Draw

variable {I : Instance} {σ : Type} [WordSource σ]

/-! ### Passes until one succeeds -/

/-- So many passes in a row, each along a walk of its own, that all fail, the last of them at the
    course. Each but the last raises the teacher of the course that it fails at. -/
inductive Fruitless (I : Instance) : Nat → Difficulty → σ → CourseIx I → σ → Prop
  | last {hard : Difficulty} {s s' : σ} {w : SlotWalk I.slotCount} {c : CourseIx I}
      (draws : (SlotWalk.random I.slotCount).run s = some (w, s'))
      (fails : (Pass.start hard w).Fails c) : Fruitless I 1 hard s c s'
  | more {passes : Nat} {hard : Difficulty} {s s₁ s' : σ} {w : SlotWalk I.slotCount}
      {b c : CourseIx I} (draws : (SlotWalk.random I.slotCount).run s = some (w, s₁))
      (fails : (Pass.start hard w).Fails b)
      (rest : Fruitless I passes (hard.raise (teacherOf b)) s₁ c s') :
      Fruitless I (passes + 1) hard s c s'

theorem Instance.Coherent.slotCount_pos (hI : I.Coherent) : 0 < I.slotCount :=
  Nat.mul_pos hI.days_pos hI.periods_pos

section

variable {hard : Difficulty} {s s' : σ} {w : SlotWalk I.slotCount} {c : CourseIx I}

/-- A pass that succeeds is the last one. -/
theorem run_buildWithin_of_ok {t : Timetable I}
    (hdraws : (SlotWalk.random I.slotCount).run s = some (w, s')) (hbuilt : buildOnce hard w = .ok t)
    (more : Nat) : (buildWithin hard more).run s = some (.ok t, s') := by
  cases more with
  | zero =>
    simp only [buildWithin, StateT.run_bind, hdraws, Option.bind_eq_bind, Option.bind_some, hbuilt]
    rfl
  | succ more =>
    simp only [buildWithin, StateT.run_bind, hdraws, Option.bind_eq_bind, Option.bind_some, hbuilt]
    rfl

theorem run_buildWithin_zero_of_error
    (hdraws : (SlotWalk.random I.slotCount).run s = some (w, s'))
    (hbuilt : buildOnce hard w = .error c) :
    (buildWithin hard 0 : Draw σ (Except (CourseIx I) (Timetable I))).run s =
      some (.error c, s') := by
  simp only [buildWithin, StateT.run_bind, hdraws, Option.bind_eq_bind, Option.bind_some, hbuilt]
  rfl

/-- A pass that fails is followed by those that are left, with the teacher raised. -/
theorem run_buildWithin_succ_of_error
    (hdraws : (SlotWalk.random I.slotCount).run s = some (w, s'))
    (hbuilt : buildOnce hard w = .error c) (more : Nat) :
    (buildWithin hard (more + 1) : Draw σ (Except (CourseIx I) (Timetable I))).run s =
      (buildWithin (hard.raise (teacherOf c)) more).run s' := by
  simp only [buildWithin, StateT.run_bind, hdraws, Option.bind_eq_bind, Option.bind_some, hbuilt]

end

/-- What the passes give from a state of the source: a complete timetable, or the last failure. -/
theorem buildWithin_cases (hI : I.Coherent) (hard : Difficulty) (more : Nat) (s : σ) :
    (∃ (t : Timetable I) (s' : σ), (buildWithin hard more).run s = some (.ok t, s') ∧
        t.Lodged wanted) ∨
      ∃ (c : CourseIx I) (s' : σ), (buildWithin hard more).run s = some (.error c, s') ∧
        Fruitless I (more + 1) hard s c s' := by
  induction more generalizing hard s with
  | zero =>
    obtain ⟨w, s', hdraws, hw⟩ := SlotWalk.gives_random hI.slotCount_pos s
    cases hbuilt : buildOnce hard w with
    | ok t =>
      exact .inl ⟨t, s', run_buildWithin_of_ok hdraws hbuilt 0, lodged_of_buildOnce hI hbuilt⟩
    | error c =>
      exact .inr ⟨c, s', run_buildWithin_zero_of_error hdraws hbuilt,
        .last hdraws ((buildOnce_eq_error_iff hI hw).1 hbuilt)⟩
  | succ more ih =>
    obtain ⟨w, s', hdraws, hw⟩ := SlotWalk.gives_random hI.slotCount_pos s
    cases hbuilt : buildOnce hard w with
    | ok t =>
      exact .inl ⟨t, s', run_buildWithin_of_ok hdraws hbuilt _, lodged_of_buildOnce hI hbuilt⟩
    | error b =>
      have hfails := (buildOnce_eq_error_iff hI hw).1 hbuilt
      rw [run_buildWithin_succ_of_error hdraws hbuilt]
      refine (ih (hard.raise (teacherOf b)) s').imp_right ?_
      rintro ⟨c, s'', hrun, hfruitless⟩
      exact ⟨c, s'', hrun, .more hdraws hfails hfruitless⟩

/-! ### Outcomes -/

/-- What building may give within a limit, from one state of the source to another. -/
inductive Outcome (I : Instance) (limit : Nat) (s : σ) :
    Except BuildError (Timetable I) → σ → Prop
  | noLecture (nothing : I.lectureCount = 0) : Outcome I limit s (.ok .empty) s
  | noRoom (lecture : I.lectureCount ≠ 0) (nothing : I.rooms.size = 0) :
      Outcome I limit s (.error (.noRoomOrSlot I.slotCount 0 I.lectureCount)) s
  | built {t : Timetable I} {s' : σ} (lecture : I.lectureCount ≠ 0) (room : 0 < I.rooms.size)
      (lodged : t.Lodged wanted) : Outcome I limit s (.ok t) s'
  | exhausted {c : CourseIx I} {s' : σ} (lecture : I.lectureCount ≠ 0) (room : 0 < I.rooms.size)
      (fruitless : Fruitless I (atLeastOne limit) (Difficulty.initial I) s c s') :
      Outcome I limit s
        (.error (.exhausted (atLeastOne limit) (course c).id (course c).teacher)) s'

theorem lectureTotal_eq_zero_iff : I.lectureTotal = 0 ↔ ∀ c : CourseIx I, wanted c = 0 := by
  rw [lectureTotal, tally_eq_zero_iff]
  constructor
  · intro h c
    exact h _ (Array.mem_toList_iff.2 (Array.getElem_mem c.isLt))
  · intro h x hx
    obtain ⟨i, hi, rfl⟩ := Array.mem_iff_getElem.1 (Array.mem_toList_iff.1 hx)
    exact h ⟨i, hi⟩

/-- The lectures of the course that building sees to. -/
def sought (c : CourseIx I) : Nat := if I.lectureCount = 0 then 0 else wanted c

theorem sought_of_ne_zero (h : I.lectureCount ≠ 0) : sought (I := I) = wanted :=
  funext fun _ => if_neg h

/-- Building sees to all lectures as long as 64 bits hold their number. -/
theorem sought_of_lt (h : I.lectureTotal < UInt64.size) : sought (I := I) = wanted := by
  by_cases hlectures : I.lectureCount = 0
  · have hnothing : ∀ c : CourseIx I, wanted c = 0 :=
      lectureTotal_eq_zero_iff.1 ((lectureCount_of_lt h).symm.trans hlectures)
    exact funext fun c => (if_pos hlectures).trans (hnothing c).symm
  · exact sought_of_ne_zero hlectures

theorem lectureCount_ne_zero_iff (h : I.lectureTotal < UInt64.size) :
    I.lectureCount ≠ 0 ↔ ∃ c : CourseIx I, 0 < wanted c := by
  rw [lectureCount_of_lt h, Ne, lectureTotal_eq_zero_iff]
  simp [Nat.pos_iff_ne_zero]

/-- Where no lecture is sought, the timetable without bookings is complete. -/
theorem lodged_empty (h : I.lectureCount = 0) : (Timetable.empty : Timetable I).Lodged sought :=
  ⟨.empty, Draft.covers_empty fun c => by simp [sought, h], Draft.withRooms_empty⟩

/-- Building comes to an end with one of its outcomes, whatever words it draws. -/
theorem exists_outcome (hI : I.Coherent) (limit : Nat) (s : σ) :
    ∃ built s', (build I limit).run s = some (built, s') ∧ Outcome I limit s built s' := by
  by_cases hlectures : I.lectureCount = 0
  · refine ⟨_, s, ?_, .noLecture hlectures⟩
    rw [build, if_pos hlectures]
    rfl
  · by_cases hrooms : I.rooms.size = 0
    · refine ⟨_, s, ?_, .noRoom hlectures hrooms⟩
      rw [build, if_neg hlectures, if_pos (.inr hrooms), hrooms]
      rfl
    · have hroom := Nat.pos_of_ne_zero hrooms
      have hplaces : ¬(I.slotCount = 0 ∨ I.rooms.size = 0) := by
        have hslots := hI.slotCount_pos
        omega
      have hlimit : atLeastOne limit - 1 + 1 = atLeastOne limit :=
        Nat.sub_add_cancel (Nat.le_max_left 1 limit)
      simp only [build, if_neg hlectures, if_neg hplaces, StateT.run_bind]
      rcases buildWithin_cases hI (Difficulty.initial I) (atLeastOne limit - 1) s with
        ⟨t, s', hrun, hlodged⟩ | ⟨c, s', hrun, hfruitless⟩
      · rw [hrun]
        exact ⟨_, s', rfl, .built hlectures hroom hlodged⟩
      · rw [hrun]
        rw [hlimit] at hfruitless
        exact ⟨_, s', rfl, .exhausted hlectures hroom hfruitless⟩

variable {limit : Nat} {s s' : σ}

theorem Outcome.lodged {t : Timetable I} (h : Outcome I limit s (.ok t) s') : t.Lodged sought := by
  cases h with
  | noLecture nothing => exact lodged_empty nothing
  | built lecture _ lodged =>
    rw [sought_of_ne_zero lecture]
    exact lodged

/-- Building gives up at once just when there seems to be a lecture to place and there is no room for
    any. -/
theorem Outcome.noRoomOrSlot_iff {built : Except BuildError (Timetable I)}
    (h : Outcome I limit s built s') :
    (∃ slots rooms lectures, built = .error (.noRoomOrSlot slots rooms lectures)) ↔
      I.lectureCount ≠ 0 ∧ I.rooms.size = 0 := by
  cases h with
  | noLecture nothing => simp [nothing]
  | noRoom lecture nothing => exact iff_of_true ⟨_, _, _, rfl⟩ ⟨lecture, nothing⟩
  | built _ room _ => simp [room.ne']
  | exhausted _ room _ => simp [room.ne']

/-- Building never runs out of words, and what it builds has every lecture that is sought. -/
theorem gives_build (hI : I.Coherent) (limit : Nat) :
    Gives (build I limit : Draw σ (Except BuildError (Timetable I)))
      fun built => ∀ t, built = .ok t → t.Lodged sought := by
  intro s
  obtain ⟨built, s', hrun, houtcome⟩ := exists_outcome hI limit s
  refine ⟨built, s', hrun, ?_⟩
  rintro t rfl
  exact houtcome.lodged

/-- What building a population may give: as many timetables as it asks for, each with every lecture that
    is sought, or the failure of one of the builds. -/
def Populated (I : Instance) (limit size : Nat) : Except BuildError (List (Timetable I)) → Prop
  | .ok ts => ts.length = size ∧ ∀ t ∈ ts, t.Lodged sought
  | .error e => ∃ seed s', (build I limit).run (Xoshiro.ofSeed seed) = some (.error e, s')

theorem exists_buildFromSeeds (hI : I.Coherent) (limit : Nat) (seeds : List UInt64) :
    ∃ built, buildFromSeeds I limit seeds = some built ∧ Populated I limit seeds.length built := by
  induction seeds with
  | nil => exact ⟨.ok [], rfl, rfl, nofun⟩
  | cons seed seeds ih =>
    obtain ⟨built, rest, hrun, hbuilt⟩ := gives_build hI limit (Xoshiro.ofSeed seed)
    obtain ⟨others, hothers, hall⟩ := ih
    rw [buildFromSeeds, hrun]
    cases built with
    | error e => exact ⟨.error e, rfl, seed, rest, hrun⟩
    | ok t =>
      refine ⟨others.map (t :: ·), by rw [hothers]; rfl, ?_⟩
      cases others with
      | error e => exact hall
      | ok us =>
        obtain ⟨hlength, hlodged⟩ := hall
        exact ⟨congrArg Nat.succ hlength, List.forall_mem_cons.2 ⟨hbuilt t rfl, hlodged⟩⟩

theorem gives_drawSeeds (n : Nat) :
    Gives (drawSeeds n : Draw σ (List UInt64)) fun seeds => seeds.length = n := by
  induction n with
  | zero => exact gives_pure rfl
  | succ n ih =>
    refine gives_word.bind fun _ _ => ih.bind fun _ hseeds => gives_pure ?_
    exact congrArg Nat.succ hseeds

/-- Every member of a population that is built has every lecture that is sought. -/
theorem gives_buildMany (hI : I.Coherent) (limit size : Nat) :
    Gives (buildMany I limit size : Draw σ (Except BuildError (List (Timetable I))))
      (Populated I limit size) := by
  refine (gives_drawSeeds size).bind ?_
  rintro seeds rfl
  obtain ⟨built, hbuilt, hall⟩ := exists_buildFromSeeds hI limit seeds
  rw [hbuilt]
  exact gives_pure hall

end Timetabling
