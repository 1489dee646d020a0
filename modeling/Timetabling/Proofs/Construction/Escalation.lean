import Timetabling.Proofs.Construction.Build
import Timetabling.Proofs.Promotion

/-! What a restart changes. The level of one teacher is raised, and since the lectures are in the order
    of the levels, those of the teacher are promoted and the others keep their order. No level is ever
    lowered, so the levels only grow over the restarts of a build. -/

namespace Timetabling

open Instance

/-- The lectures are taken in the order of the levels of their teachers. -/
theorem pendingLectures_eq_byKey (I : Instance) (hard : Difficulty) :
    pendingLectures I hard = byKey (fun c => hard.level (teacherOf c))
      ((List.finRange I.courses.size).flatMap fun c => List.replicate (wanted c) c) :=
  rfl

/-! ### Levels -/

namespace Difficulty

variable {d : Difficulty} {I : Instance}

/-- No level is beyond the greatest. -/
def Bounded (d : Difficulty) : Prop := ∀ teacher, d.level teacher ≤ maxDifficulty

theorem addDifficulty_le (a b : Nat) : addDifficulty a b ≤ maxDifficulty := Nat.min_le_right ..

theorem raised_le (level : Nat) : raised level ≤ maxDifficulty := addDifficulty_le ..

theorem le_raised {level : Nat} (h : level ≤ maxDifficulty) : level ≤ raised level := by
  rw [raised, addDifficulty]
  omega

/-- A raise is by two at least, unless it comes to the greatest level. -/
theorem raised_cases (level : Nat) : level + 2 ≤ raised level ∨ raised level = maxDifficulty := by
  rw [raised, addDifficulty]
  omega

theorem level_modify (d : Difficulty) (teacher : Nat) (f : Nat → Nat) (other : Nat) :
    (Difficulty.mk (d.levels.modify teacher f)).level other =
      if other = teacher ∧ teacher < d.levels.size then f (d.level teacher)
      else d.level other := by
  simp only [level, Array.getD_eq_getD_getElem?, Array.getElem?_modify]
  by_cases hother : teacher = other
  · subst hother
    by_cases hsize : teacher < d.levels.size
    · simp [hsize]
    · simp [hsize]
  · simp [hother, Ne.symm hother]

theorem level_raise (d : Difficulty) (teacher other : Nat) :
    (d.raise teacher).level other =
      if other = teacher ∧ teacher < d.levels.size then raised (d.level teacher)
      else d.level other :=
  level_modify ..

theorem level_raise_self {teacher : Nat} (h : teacher < d.levels.size) :
    (d.raise teacher).level teacher = raised (d.level teacher) := by
  rw [level_raise, if_pos ⟨rfl, h⟩]

theorem level_raise_of_ne {teacher other : Nat} (h : other ≠ teacher) :
    (d.raise teacher).level other = d.level other := by
  rw [level_raise, if_neg fun h' => h h'.1]

namespace Bounded

theorem modify (h : d.Bounded) {f : Nat → Nat} (hf : ∀ level, f level ≤ maxDifficulty)
    (teacher : Nat) : (Difficulty.mk (d.levels.modify teacher f)).Bounded := by
  intro other
  rw [level_modify]
  split
  · exact hf _
  · exact h other

theorem raise (h : d.Bounded) (teacher : Nat) : (d.raise teacher).Bounded :=
  h.modify raised_le teacher

theorem addLoad (h : d.Bounded) (c : CourseIx I) : (d.addLoad c).Bounded :=
  h.modify (fun _ => addDifficulty_le ..) (teacherOf c)

theorem foldl_addLoad (h : d.Bounded) (cs : List (CourseIx I)) :
    (cs.foldl Difficulty.addLoad d).Bounded := by
  induction cs generalizing d with
  | nil => exact h
  | cons c cs ih => exact ih (h.addLoad c)

theorem initial (I : Instance) : (Difficulty.initial I).Bounded := by
  refine foldl_addLoad ?_ _
  intro teacher
  rw [level, Array.getD_eq_getD_getElem?, Array.getElem?_replicate]
  split <;> exact Nat.zero_le _

theorem le_raise (h : d.Bounded) (teacher other : Nat) :
    d.level other ≤ (d.raise teacher).level other := by
  rw [level_raise]
  by_cases hother : other = teacher ∧ teacher < d.levels.size
  · rw [if_pos hother, hother.1]
    exact le_raised (h teacher)
  · rw [if_neg hother]

/-- The lectures of the teacher get a common key that is not lower, and the others keep theirs. -/
theorem raises (h : d.Bounded) (I : Instance) (teacher : Nat) :
    Raises (fun c : CourseIx I => decide (teacherOf c = teacher)) (fun c => d.level (teacherOf c))
      fun c => (d.raise teacher).level (teacherOf c) where
  rest_eq c hc := level_raise_of_ne (by simpa using hc)
  own_eq b c hb hc := by
    rw [of_decide_eq_true hb, of_decide_eq_true hc]
  raised_eq b c hb hc := by
    rw [of_decide_eq_true hb, of_decide_eq_true hc]
  le c := h.le_raise teacher (teacherOf c)

end Bounded

/-- What the raise of a teacher does. The level of this one teacher grows, and the lectures of the
    teacher come forward in the order in which a pass takes them, from the highest level on. -/
structure Escalates (I : Instance) (d : Difficulty) (teacher : Nat) : Prop where
  le_raise : d.level teacher ≤ (d.raise teacher).level teacher
  raise_le : (d.raise teacher).level teacher ≤ maxDifficulty
  raise_cases : d.level teacher + 2 ≤ (d.raise teacher).level teacher ∨
    (d.raise teacher).level teacher = maxDifficulty
  raise_of_ne : ∀ other, other ≠ teacher → (d.raise teacher).level other = d.level other
  ordered : (pendingLectures I (d.raise teacher)).Pairwise fun b c =>
    (d.raise teacher).level (teacherOf c) ≤ (d.raise teacher).level (teacherOf b)
  promoted : Promoted (fun c => teacherOf c = teacher) (pendingLectures I d)
    (pendingLectures I (d.raise teacher))

theorem Bounded.escalates (h : d.Bounded) (I : Instance) {teacher : Nat}
    (hteacher : teacher < d.levels.size) : Escalates I d teacher where
  le_raise := h.le_raise teacher teacher
  raise_le := h.raise teacher teacher
  raise_cases := by
    rw [level_raise_self hteacher]
    exact raised_cases _
  raise_of_ne _ hother := level_raise_of_ne hother
  ordered := byKey_ordered _ _
  promoted := by
    rw [pendingLectures_eq_byKey, pendingLectures_eq_byKey]
    exact (h.raises I teacher).promoted _

end Difficulty

/-! ### Restarts -/

section

variable {I : Instance} {σ : Type} [WordSource σ] {a b : Difficulty × σ}

/-- From before one pass to before the next: the pass failed at a course, and its teacher is raised. -/
inductive Restart (I : Instance) : Difficulty × σ → Difficulty × σ → Prop
  | fail {hard : Difficulty} {s s' : σ} {w : SlotWalk I.slotCount} {c : CourseIx I}
      (draws : (SlotWalk.random I.slotCount).run s = some (w, s'))
      (fails : buildOnce hard w = .error c) :
      Restart I (hard, s) (hard.raise (teacherOf c), s')

theorem Restart.bounded (h : Restart I a b) (ha : a.1.Bounded) : b.1.Bounded := by
  cases h with
  | fail => exact ha.raise _

theorem Restart.level_le (h : Restart I a b) (ha : a.1.Bounded) (teacher : Nat) :
    a.1.level teacher ≤ b.1.level teacher := by
  cases h with
  | fail => exact ha.le_raise _ teacher

theorem bounded_of_restarts (h : Relation.ReflTransGen (Restart I) a b) (ha : a.1.Bounded) :
    b.1.Bounded := by
  induction h with
  | refl => exact ha
  | tail _ hrestart ih => exact hrestart.bounded ih

/-- However many restarts lie between, no level goes down. -/
theorem level_le_of_restarts (h : Relation.ReflTransGen (Restart I) a b) (ha : a.1.Bounded)
    (teacher : Nat) : a.1.level teacher ≤ b.1.level teacher := by
  induction h with
  | refl => exact le_rfl
  | tail hrestarts hrestart ih =>
    exact ih.trans (hrestart.level_le (bounded_of_restarts hrestarts ha) teacher)

/-- After so many restarts the passes that are left go on from there. -/
theorem run_buildWithin_of_restarts (h : Relation.ReflTransGen (Restart I) a b) :
    ∃ passes, ∀ more, (buildWithin (I := I) a.1 (more + passes)).run a.2 =
      (buildWithin b.1 more).run b.2 := by
  induction h with
  | refl => exact ⟨0, fun _ => rfl⟩
  | tail _ hrestart ih =>
    obtain ⟨passes, hpasses⟩ := ih
    refine ⟨passes + 1, fun more => ?_⟩
    cases hrestart with
    | fail draws fails =>
      rw [← Nat.add_assoc, Nat.add_right_comm, hpasses, run_buildWithin_succ_of_error draws fails]

/-- To raise a teacher, at whatever level, moves no lecture of this teacher back and keeps the order of
    these lectures and that of all others. The level grows by two at least until it is the greatest.
    So the levels of all teachers only grow from one restart of a build to any later one, and the
    build goes on with the levels that the restarts lead to. -/
theorem escalates_along_restarts (I : Instance) :
    (∀ (hard : Difficulty) (teacher : Nat), hard.Bounded → teacher < hard.levels.size →
      hard.Escalates I teacher) ∧
    ∀ (s : σ) (a b : Difficulty × σ),
      Relation.ReflTransGen (Restart I) (Difficulty.initial I, s) a →
      Relation.ReflTransGen (Restart I) a b →
      (∀ teacher, a.1.level teacher ≤ b.1.level teacher) ∧
        ∃ passes, ∀ more,
          (buildWithin (I := I) (Difficulty.initial I) (more + passes)).run s =
            (buildWithin b.1 more).run b.2 := by
  constructor
  · intro hard teacher hbounded hteacher
    exact hbounded.escalates I hteacher
  · intro s a b hstart hab
    have ha := bounded_of_restarts hstart (Difficulty.Bounded.initial I)
    exact ⟨level_le_of_restarts hab ha, run_buildWithin_of_restarts (hstart.trans hab)⟩

end

/-- Two courses that want the one slot of their grid. -/
def Instance.clash : Instance := { pair with days := 1, unavailable := .ofMarks 2 1 [] }

/-- The one walk around the slot of the clash. -/
def SlotWalk.clash : SlotWalk clash.slotCount := ⟨⟨0, by decide⟩, 1⟩

theorem restart_clash : Restart clash (Difficulty.initial clash, (⟨#[1], 0⟩ : Script))
    ((Difficulty.initial clash).raise 1, ⟨#[1], 0⟩) := by
  have draws : (SlotWalk.random clash.slotCount).run (⟨#[1], 0⟩ : Script) =
      some (SlotWalk.clash, ⟨#[1], 0⟩) := by decide +kernel
  -- the teachers have one level, so the lectures are in the order of declaration
  have hpending : pendingLectures clash (Difficulty.initial clash) =
      [⟨0, by decide⟩, ⟨1, by decide⟩] := by
    rw [pendingLectures, List.mergeSort_of_pairwise (by decide)]
    decide
  have fails : buildOnce (Difficulty.initial clash) SlotWalk.clash = .error ⟨1, by decide⟩ := by
    rw [buildOnce, hpending]
    decide +kernel
  exact .fail draws fails

/-- The second course finds no slot, and its teacher is raised from one to three. -/
theorem escalates_along_restarts_clash :
    (Difficulty.initial clash).Escalates clash 1 ∧
      (Difficulty.initial clash).levels = #[1, 1] ∧
      ((Difficulty.initial clash).raise 1).levels = #[1, 3] ∧
      ∀ teacher, (Difficulty.initial clash).level teacher ≤
        ((Difficulty.initial clash).raise 1).level teacher := by
  obtain ⟨hescalates, hrestarts⟩ := escalates_along_restarts (σ := Script) clash
  refine ⟨hescalates _ 1 (Difficulty.Bounded.initial clash) (by decide), by decide, by decide, ?_⟩
  exact (hrestarts ⟨#[1], 0⟩ _ _ .refl (.single restart_clash)).1

end Timetabling
