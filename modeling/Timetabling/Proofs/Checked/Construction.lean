import Timetabling.Construction.Build
import Timetabling.Proofs.Checked.Rooms
import Timetabling.Proofs.Instance.Resolution
import Timetabling.Proofs.Random.Draw

/-! Construction with every look-up checked. Difficulties are kept by the numbers of the teachers, and
    the slots that a course cannot use are counted in its row of marks: both are long enough when the
    instance comes from records. The walk needs no check of its own, since a draw below zero fails
    as it is. -/

namespace Timetabling

open Instance Draw

variable {I : Instance}

/-! ### Failures in draws -/

/-- What was computed, or a draw that fails. -/
def Draw.ofOption {σ α : Type} : Option α → Draw σ α
  | some a => return a
  | none => failure

@[simp]
theorem Draw.ofOption_some {σ α : Type} (a : α) : (ofOption (some a) : Draw σ α) = pure a := rfl

/-! ### The length of the tables -/

namespace Instance

/-- The teachers of the courses are listed, and every course has its row of marks. -/
structure Tabled (I : Instance) : Prop where
  coherent : I.Coherent
  teacherOf_lt : ∀ c : CourseIx I, teacherOf c < I.teachers.size
  size_unavailable : I.unavailable.bits.size = I.courses.size * I.slotCount

/-- The marks of a course, counted over its row of the table. -/
def checkedUnavailableCount (c : CourseIx I) : Option Nat :=
  if (c.val + 1) * I.slotCount ≤ I.unavailable.bits.size then some (unavailableCount c) else none

theorem Tabled.checkedUnavailableCount_eq (hI : I.Tabled) (c : CourseIx I) :
    checkedUnavailableCount c = some (unavailableCount c) := by
  refine if_pos ?_
  rw [hI.size_unavailable]
  exact Nat.mul_le_mul_right _ c.isLt

end Instance

theorem Records.tabled_of_resolve {r : Records} (h : r.resolve = .ok I) : I.Tabled where
  coherent := coherent_of_resolve h
  teacherOf_lt c := by
    obtain ⟨-, -, -, -, -, -, rfl⟩ := link?_eq_some_iff.1 (link?_eq_some_of_resolve h)
    exact (Array.getElem?_eq_some_iff.1 (teachers_linked c).1).1
  size_unavailable := by
    obtain ⟨-, -, -, -, -, -, rfl⟩ := link?_eq_some_iff.1 (link?_eq_some_of_resolve h)
    rw [linked, MarkTable.size_bits_ofMarks]
    simp [slotCount]

/-! ### Difficulties -/

namespace Difficulty

/-- The difficulties with the level of one teacher, which has to exist, changed. -/
def checkedModify (d : Difficulty) (teacher : Nat) (f : Nat → Nat) : Option Difficulty := do
  let level ← d.levels[teacher]?
  return ⟨d.levels.setIfInBounds teacher (f level)⟩

def checkedAddLoad (d : Difficulty) (c : CourseIx I) : Option Difficulty := do
  let unavailable ← checkedUnavailableCount c
  d.checkedModify (teacherOf c) fun level =>
    addDifficulty level (addDifficulty (course c).lectures unavailable)

def checkedInitial (I : Instance) : Option Difficulty :=
  (List.finRange I.courses.size).foldlM checkedAddLoad ⟨Array.replicate I.teachers.size 0⟩

/-- There is a level for every teacher. -/
def Complete (I : Instance) (d : Difficulty) : Prop := d.levels.size = I.teachers.size

variable {d : Difficulty}

theorem Complete.raise (h : d.Complete I) (teacher : Nat) : (d.raise teacher).Complete I := by
  rw [Complete, Difficulty.raise, Array.size_modify, h]

theorem Complete.addLoad (h : d.Complete I) (c : CourseIx I) : (d.addLoad c).Complete I := by
  rw [Complete, Difficulty.addLoad, Array.size_modify, h]

theorem complete_initial (I : Instance) : (initial I).Complete I := by
  refine List.foldlRecOn (motive := Complete I) _ _ (Array.size_replicate ..) ?_
  intro d hd c _
  exact hd.addLoad c

theorem checkedModify_eq {teacher : Nat} (h : teacher < d.levels.size) (f : Nat → Nat) :
    d.checkedModify teacher f = some ⟨d.levels.modify teacher f⟩ := by
  have hset : d.levels.setIfInBounds teacher (f d.levels[teacher]) = d.levels.modify teacher f := by
    refine Array.ext_getElem? ?_
    intro i
    rw [Array.getElem?_modify]
    by_cases hi : teacher = i
    · subst hi
      simp [h]
    · simp [Array.getElem?_setIfInBounds_ne hi, hi]
  simp [checkedModify, Array.getElem?_eq_getElem h, hset]

theorem Complete.checkedRaise_eq (h : d.Complete I) (hI : I.Tabled) (c : CourseIx I) :
    d.checkedModify (teacherOf c) raised = some (d.raise (teacherOf c)) :=
  checkedModify_eq (h ▸ hI.teacherOf_lt c) raised

theorem Complete.checkedAddLoad_eq (h : d.Complete I) (hI : I.Tabled) (c : CourseIx I) :
    d.checkedAddLoad c = some (d.addLoad c) := by
  simp only [checkedAddLoad, hI.checkedUnavailableCount_eq, Option.bind_eq_bind, Option.bind_some,
    checkedModify_eq (h ▸ hI.teacherOf_lt c)]
  rfl

theorem checkedInitial_eq (hI : I.Tabled) : checkedInitial I = some (initial I) := by
  have hfold : ∀ (cs : List (CourseIx I)) (d : Difficulty), d.Complete I →
      cs.foldlM checkedAddLoad d = some (cs.foldl addLoad d) := by
    intro cs
    induction cs with
    | nil => exact fun _ _ => rfl
    | cons c cs ih =>
      intro d hd
      simp [List.foldlM_cons, hd.checkedAddLoad_eq hI, ih _ (hd.addLoad c)]
  exact hfold _ _ (Array.size_replicate ..)

end Difficulty

/-! ### A pass -/

/-- The lectures of all courses, sorted by the levels of their teachers, all of which have to exist. -/
def checkedPendingLectures (I : Instance) (hard : Difficulty) : Option (List (CourseIx I)) := do
  let keyed ← ((List.finRange I.courses.size).flatMap fun c =>
    List.replicate (course c).lectures c).mapM fun c => do
      let level ← hard.levels[teacherOf c]?
      return (c, level)
  return (keyed.mergeSort fun a b => b.2 ≤ a.2).map Prod.fst

def checkedFill (s : Slot I) :
    List (CourseIx I) → Draft I → Option (Draft I × List (CourseIx I))
  | [], d => return (d, [])
  | c :: cs, d => do
    if ← d.checkedFitsAt c s then checkedFill s cs (← d.checkedAddAt c s)
    else
      let (d, rest) ← checkedFill s cs d
      return (d, c :: rest)

theorem length_checkedFill_le {s : Slot I} {cs : List (CourseIx I)} {d : Draft I}
    {filled : Draft I × List (CourseIx I)} (h : checkedFill s cs d = some filled) :
    filled.2.length ≤ cs.length := by
  induction cs generalizing d filled with
  | nil =>
    obtain rfl := Option.some.inj h
    exact Nat.le_refl _
  | cons c cs ih =>
    obtain ⟨fits, -, h⟩ := Option.bind_eq_some_iff.1 h
    cases fits with
    | true =>
      obtain ⟨e, -, h⟩ := Option.bind_eq_some_iff.1 h
      exact Nat.le_succ_of_le (ih h)
    | false =>
      obtain ⟨rest, hrest, h⟩ := Option.bind_eq_some_iff.1 h
      obtain rfl := Option.some.inj h
      exact Nat.succ_le_succ (ih hrest)

def checkedPlaceAll (w : SlotWalk I.slotCount) (d : Draft I) :
    List (CourseIx I) → Option (Except (CourseIx I) (Draft I))
  | [] => return .ok d
  | c :: cs => do
    match ← w.cycle.findM? (d.checkedFitsAt c) with
    | none => return .error c
    | some s =>
      let d ← d.checkedAddAt c s
      match _h : checkedFill w.position cs d with
      | none => none
      | some filled => checkedPlaceAll w.advance filled.1 filled.2
  termination_by cs => cs.length
  decreasing_by exact Nat.lt_succ_of_le (length_checkedFill_le _h)

def checkedBuildOnce (hard : Difficulty) (w : SlotWalk I.slotCount) :
    Option (Except (CourseIx I) (Timetable I)) := do
  match ← checkedPlaceAll w .empty (← checkedPendingLectures I hard) with
  | .error c => return .error c
  | .ok d => return (← d.checkedWithRooms).mapError Shortage.course

section

variable {hard : Difficulty}

theorem checkedPendingLectures_eq (hI : I.Tabled) (hhard : hard.Complete I) :
    checkedPendingLectures I hard = some (pendingLectures I hard) := by
  have hkey : ∀ c : CourseIx I, hard.levels[teacherOf c]? = some (hard.level (teacherOf c)) := by
    intro c
    have hlt : teacherOf c < hard.levels.size := hhard ▸ hI.teacherOf_lt c
    simp [Difficulty.level, hlt]
  rw [checkedPendingLectures, mapM_eq_some_map (g := fun c => (c, hard.level (teacherOf c)))
    fun c _ => by rw [hkey]; rfl]
  simp only [Option.bind_eq_bind, Option.bind_some, Option.pure_def, pendingLectures]
  rw [← List.map_mergeSort (r := fun a b => hard.level (teacherOf b) ≤ hard.level (teacherOf a))
    fun _ _ _ _ => rfl]
  simp [Function.comp_def]

theorem checkedFill_eq (hI : I.Coherent) (s : Slot I) (cs : List (CourseIx I)) (d : Draft I) :
    checkedFill s cs d = some (fill s cs d) := by
  induction cs generalizing d with
  | nil => rfl
  | cons c cs ih =>
    cases hfits : d.fits c s <;>
      simp [checkedFill, fill, Draft.checkedFitsAt_eq hI, Draft.checkedAddAt_eq hI, hfits, ih]

theorem checkedPlaceAll_eq (hI : I.Coherent) (w : SlotWalk I.slotCount) (d : Draft I)
    (cs : List (CourseIx I)) : checkedPlaceAll w d cs = some (placeAll w d cs) := by
  fun_induction placeAll w d cs with
  | case1 => rw [checkedPlaceAll]; rfl
  | case2 w d c cs hnone =>
    rw [checkedPlaceAll, findM?_eq_some_find? (d.checkedFitsAt_eq hI c), hnone]
    rfl
  | case3 w d c cs s hs filled ih =>
    rw [checkedPlaceAll, findM?_eq_some_find? (d.checkedFitsAt_eq hI c), hs]
    simp only [Option.bind_eq_bind, Option.bind_some, Draft.checkedAddAt_eq hI]
    split
    · rename_i hnone
      simp [checkedFill_eq hI] at hnone
    · rename_i filled' hfilled
      rw [checkedFill_eq hI, Option.some.injEq] at hfilled
      subst hfilled
      exact ih

theorem checkedBuildOnce_eq (hI : I.Tabled) (hhard : hard.Complete I) (w : SlotWalk I.slotCount) :
    checkedBuildOnce hard w = some (buildOnce hard w) := by
  simp only [checkedBuildOnce, checkedPendingLectures_eq hI hhard, Option.bind_eq_bind,
    Option.bind_some, checkedPlaceAll_eq hI.coherent, buildOnce]
  cases placeAll w .empty (pendingLectures I hard) with
  | error c => rfl
  | ok d => simp [Draft.checkedWithRooms_eq hI.coherent, bind, Except.bind]

end

/-! ### Building -/

section

variable {σ : Type} [WordSource σ]

def checkedBuildWithin (hard : Difficulty) : Nat → Draw σ (Except (CourseIx I) (Timetable I))
  | 0 => do
    let w ← SlotWalk.random I.slotCount
    ofOption (checkedBuildOnce hard w)
  | more + 1 => do
    let w ← SlotWalk.random I.slotCount
    match ← ofOption (checkedBuildOnce hard w) with
    | .ok t => return .ok t
    | .error c => do
      let hard ← ofOption (hard.checkedModify (teacherOf c) Difficulty.raised)
      checkedBuildWithin hard more

def checkedBuild (I : Instance) (limit : Nat) : Draw σ (Except BuildError (Timetable I)) :=
  if I.lectureCount = 0 then return .ok .empty
  else if I.slotCount = 0 ∨ I.rooms.size = 0 then
    return .error (.noRoomOrSlot I.slotCount I.rooms.size I.lectureCount)
  else do
    let hard ← ofOption (Difficulty.checkedInitial I)
    match ← checkedBuildWithin hard (atLeastOne limit - 1) with
    | .ok t => return .ok t
    | .error c => return .error (.exhausted (atLeastOne limit) (course c).id (course c).teacher)

def checkedBuildFromSeeds (I : Instance) (limit : Nat) :
    List UInt64 → Option (Except BuildError (List (Timetable I)))
  | [] => some (.ok [])
  | seed :: seeds => do
    let (built, _) ← (checkedBuild I limit).run (Xoshiro.ofSeed seed)
    match built with
    | .error e => return .error e
    | .ok t => return (← checkedBuildFromSeeds I limit seeds).map (t :: ·)

def checkedBuildMany (I : Instance) (limit size : Nat) :
    Draw σ (Except BuildError (List (Timetable I))) := do
  let seeds ← drawSeeds size
  ofOption (checkedBuildFromSeeds I limit seeds)

theorem checkedBuildWithin_eq (hI : I.Tabled) {hard : Difficulty} (hhard : hard.Complete I)
    (more : Nat) : (checkedBuildWithin hard more : Draw σ (Except (CourseIx I) (Timetable I))) =
      buildWithin hard more := by
  induction more generalizing hard with
  | zero =>
    refine bind_congr fun w => ?_
    rw [checkedBuildOnce_eq hI hhard]
    rfl
  | succ more ih =>
    refine bind_congr fun w => ?_
    rw [checkedBuildOnce_eq hI hhard, ofOption_some, pure_bind]
    cases buildOnce hard w with
    | ok t => rfl
    | error c =>
      simp only [hhard.checkedRaise_eq hI, ofOption_some, pure_bind]
      exact ih (hhard.raise _)

theorem checkedBuild_eq (hI : I.Tabled) (limit : Nat) :
    (checkedBuild I limit : Draw σ (Except BuildError (Timetable I))) = build I limit := by
  rw [checkedBuild, Difficulty.checkedInitial_eq hI, ofOption_some, pure_bind,
    checkedBuildWithin_eq hI (Difficulty.complete_initial I)]
  rfl

theorem checkedBuildFromSeeds_eq (hI : I.Tabled) (limit : Nat) (seeds : List UInt64) :
    checkedBuildFromSeeds I limit seeds = buildFromSeeds I limit seeds := by
  induction seeds with
  | nil => rfl
  | cons seed seeds ih =>
    rw [checkedBuildFromSeeds, checkedBuild_eq hI, ih]
    rfl

theorem checkedBuildMany_eq (hI : I.Tabled) (limit size : Nat) :
    (checkedBuildMany I limit size : Draw σ (Except BuildError (List (Timetable I)))) =
      buildMany I limit size := by
  refine bind_congr fun seeds => ?_
  rw [checkedBuildFromSeeds_eq hI]
  cases buildFromSeeds I limit seeds <;> rfl

end

end Timetabling
