import Timetabling.Proofs.Draft.History
import Timetabling.Proofs.Matching
import Timetabling.Proofs.Rooming

/-! Drafts to which a meeting is added only when it fits, while any meeting may be taken away. The
    courses of a slot are then always some of those that last got rooms there together, so they can be
    matched with rooms. The rounds find a matching unless a course was taken away since and four or
    more stayed; in that case they may miss it, since the order in which courses are served depends on
    how many rooms are open to each. -/

namespace Timetabling

open Instance

variable {I : Instance}

namespace Draft

/-- Whether the changes add a meeting only when it fits the draft, and remove at will. -/
def guarded (d : Draft I) : List (Edit Meeting) → Bool
  | [] => true
  | .add m :: es => d.fitsMeeting m && guarded (d.edit (.add m)) es
  | .remove m :: es => guarded (d.edit (.remove m)) es
  | .replace _ :: _ => false

/-- The last change at the slot took a course away from it. -/
inductive LostLast (s : Slot I) : List (Edit Meeting) → Prop
  | lost {es : List (Edit Meeting)} {m : Meeting}
      (changed : (ofEdits (es ++ [.remove m])).coursesAt s ≠ (ofEdits es).coursesAt s) :
      LostLast s (es ++ [.remove m])
  | kept {es : List (Edit Meeting)} {e : Edit Meeting} (before : LostLast s es)
      (same : (ofEdits (es ++ [e])).coursesAt s = (ofEdits es).coursesAt s) : LostLast s (es ++ [e])

/-- How a draft stands with rooms after guarded changes. -/
structure KeepsMatchable (I : Instance) (es : List (Edit Meeting)) : Prop where
  matchable : ∀ s, Matchable ((ofEdits es : Draft I).coursesAt s)
  allottable_or : ∀ s, allottable ((ofEdits es : Draft I).coursesAt s) = true ∨
    4 ≤ ((ofEdits es : Draft I).coursesAt s).length ∧ LostLast s es
  exists_withRooms_iff : (∃ t, (ofEdits es : Draft I).withRooms = .ok t) ↔
    ∀ s, allottable ((ofEdits es : Draft I).coursesAt s) = true
  first_shortage : ∀ {c s}, (ofEdits es : Draft I).withRooms = .error ⟨c, s⟩ →
    allot ((ofEdits es : Draft I).coursesAt s) = .error c ∧
      ∀ x < s, allottable ((ofEdits es : Draft I).coursesAt x) = true

variable {d : Draft I} {s : Slot I} {m : Meeting} {es : List (Edit Meeting)}

/-! ### One change -/

theorem ofEdits_concat (es : List (Edit Meeting)) (e : Edit Meeting) :
    (ofEdits (es ++ [e]) : Draft I) = (ofEdits es).edit e := by
  simp [ofEdits, List.foldl_append]

theorem guarded_append {es fs : List (Edit Meeting)} (h : d.guarded (es ++ fs) = true) :
    d.guarded es = true ∧ (es.foldl edit d).guarded fs = true := by
  induction es generalizing d with
  | nil => exact ⟨rfl, h⟩
  | cons e es ih =>
    cases e with
    | add m =>
      rw [List.cons_append, guarded, Bool.and_eq_true] at h
      rw [guarded, Bool.and_eq_true]
      exact ⟨⟨h.1, (ih h.2).1⟩, (ih h.2).2⟩
    | remove m => exact ih h
    | replace m => cases h

/-- An addition that fits changes one slot, and there the courses have rooms. -/
theorem allottable_of_fitsMeeting (hfits : d.fitsMeeting m = true) (s : Slot I) :
    (d.edit (.add m)).coursesAt s = d.coursesAt s ∨
      allottable ((d.edit (.add m)).coursesAt s) = true := by
  obtain ⟨p, hp, hfits⟩ := (Option.any_eq_true ..).1 hfits
  have hadd : d.edit (.add m) = d.placed p.course p.slot := by simp [edit, add?, hp, placed]
  rw [hadd, placed_eq_put (admits_of_fits hfits), coursesAt_put]
  split
  · rw [fits, Bool.and_eq_true] at hfits
    exact .inr hfits.2
  · exact .inl rfl

theorem coursesAt_edit_remove_sublist (m : Meeting) (s : Slot I) :
    ((d.edit (.remove m)).coursesAt s).Sublist (d.coursesAt s) := by
  rw [edit]
  cases hm : d.remove? m with
  | none => exact .refl _
  | some e =>
    obtain ⟨p, -, hlift⟩ := Option.bind_eq_some_iff.1 hm
    obtain ⟨-, rfl⟩ := lift?_eq_some_iff.1 hlift
    rw [Option.getD_some, coursesAt_cut]
    split
    · rename_i he
      rw [he]
      exact List.erase_sublist
    · exact .refl _

/-! ### Every run -/

/-- The courses of a slot are among courses that got rooms there together. -/
theorem exists_allottable_of_guarded (hI : I.Coherent) (h : (empty : Draft I).guarded es = true)
    (s : Slot I) : ∃ cs, Ascending Fin.val cs ∧ (ofEdits es : Draft I).coursesAt s ⊆ cs ∧
      allottable cs = true := by
  induction es using List.reverseRecOn with
  | nil => exact ⟨[], .nil, by simp [ofEdits], rfl⟩
  | append_singleton es e ih =>
    obtain ⟨hes, he⟩ := guarded_append h
    obtain ⟨cs, hcs, hsub, hall⟩ := ih hes
    cases e with
    | add m =>
      obtain ⟨P, hP⟩ := exists_represents hI (es ++ [.add m])
      have hasc := hP.ascending_coursesAt s
      rw [ofEdits_concat] at hasc ⊢
      rw [guarded, Bool.and_eq_true] at he
      rcases allottable_of_fitsMeeting he.1 s with hsame | hrooms
      · exact ⟨cs, hcs, hsame ▸ hsub, hall⟩
      · exact ⟨_, hasc, List.Subset.refl _, hrooms⟩
    | remove m =>
      rw [ofEdits_concat]
      exact ⟨cs, hcs, fun _ hc => hsub ((coursesAt_edit_remove_sublist m s).subset hc), hall⟩
    | replace m => cases he

/-- The rounds succeed until a course is taken away, and again once one is added. -/
theorem allottable_or_lostLast_of_guarded (h : (empty : Draft I).guarded es = true) (s : Slot I) :
    allottable ((ofEdits es : Draft I).coursesAt s) = true ∨ LostLast s es := by
  induction es using List.reverseRecOn with
  | nil =>
    refine .inl ?_
    rw [ofEdits, List.foldl_nil, coursesAt_empty]
    rfl
  | append_singleton es e ih =>
    obtain ⟨hes, he⟩ := guarded_append h
    by_cases hsame : (ofEdits (es ++ [e]) : Draft I).coursesAt s = (ofEdits es : Draft I).coursesAt s
    · exact (ih hes).imp (fun hall => hsame ▸ hall) fun hlost => .kept hlost hsame
    · cases e with
      | add m =>
        rw [guarded, Bool.and_eq_true] at he
        rw [ofEdits_concat] at hsame ⊢
        exact .inl ((allottable_of_fitsMeeting he.1 s).resolve_left hsame)
      | remove m => exact .inr (.lost hsame)
      | replace m => cases he

/-- When meetings are added only where they fit, and taken away at will, the courses of every slot can
    be matched with rooms, and the rounds find rooms for them unless four or more stay at a slot that
    lost a course since one was last added. Rooms for the draft are found just when the rounds
    succeed at every slot, and otherwise the first slot is named where they do not. -/
theorem keepsMatchable_of_guarded {r : Records} {I : Instance} (h : r.resolve = .ok I)
    {es : List (Edit Meeting)} (hes : (empty : Draft I).guarded es = true) : KeepsMatchable I es := by
  have hI := Records.coherent_of_resolve h
  obtain ⟨P, hP⟩ := exists_represents hI es
  refine ⟨?_, ?_, ?_, ?_⟩
  · intro s
    obtain ⟨cs, hcs, hsub, hall⟩ := exists_allottable_of_guarded hI hes s
    exact (matchable_of_allottable hcs.nodup hall).mono hsub
  · intro s
    obtain ⟨cs, hcs, hsub, hall⟩ := exists_allottable_of_guarded hI hes s
    by_cases hlen : ((ofEdits es : Draft I).coursesAt s).length ≤ 3
    · exact .inl (allottable_of_subset hcs (hP.ascending_coursesAt s) hsub hlen hall)
    · exact (allottable_or_lostLast_of_guarded hes s).imp_right fun hlost => ⟨by omega, hlost⟩
  · rcases hP.withRooms_cases hI with ⟨t, ht, hall⟩ | ⟨c, s, herror, hc, -⟩
    · exact iff_of_true ⟨t, ht⟩ hall
    · exact iff_of_false (by simp [herror]) fun hall => not_allottable_of_allot hc (hall s)
  · intro c s herror
    rcases hP.withRooms_cases hI with ⟨t, ht, -⟩ | ⟨c', s', herror', hc, hall⟩
    · rw [ht] at herror
      cases herror
    · rw [herror'] at herror
      obtain ⟨rfl, rfl⟩ := Shortage.mk.inj (Except.error.inj herror)
      exact ⟨hc, hall⟩

theorem keepsMatchable_of_guarded_pair :
    (empty : Draft pair).guarded [.add ⟨0, 0, 0⟩, .add ⟨1, 1, 0⟩, .remove ⟨0, 0, 0⟩] = true ∧
      KeepsMatchable pair [.add ⟨0, 0, 0⟩, .add ⟨1, 1, 0⟩, .remove ⟨0, 0, 0⟩] :=
  ⟨by decide, keepsMatchable_of_guarded Records.resolve_pair (by decide)⟩

end Draft

/-- Five courses that have to share one slot and its five rooms. The first one can use the hall only. -/
def Records.quintet : Records where
  days := 1
  periods := 1
  courses := [⟨"algebra", "first", 1, 1, 10, false, [], 0⟩,
    ⟨"optics", "second", 1, 1, 10, false, [], 0⟩,
    ⟨"logic", "third", 1, 1, 10, false, [], 0⟩,
    ⟨"botany", "fourth", 1, 1, 10, false, [], 0⟩,
    ⟨"drawing", "fifth", 1, 1, 10, false, [], 0⟩]
  rooms := [⟨"hall", 20, 0⟩, ⟨"attic", 30, 0⟩, ⟨"cellar", 40, 0⟩, ⟨"studio", 50, 0⟩, ⟨"den", 10, 0⟩]
  roomConstraints := [⟨"algebra", "attic"⟩, ⟨"algebra", "cellar"⟩, ⟨"algebra", "studio"⟩,
    ⟨"algebra", "den"⟩, ⟨"optics", "hall"⟩, ⟨"optics", "attic"⟩, ⟨"optics", "den"⟩,
    ⟨"logic", "cellar"⟩, ⟨"logic", "studio"⟩, ⟨"logic", "den"⟩, ⟨"botany", "attic"⟩,
    ⟨"botany", "cellar"⟩, ⟨"botany", "studio"⟩, ⟨"drawing", "attic"⟩, ⟨"drawing", "studio"⟩]

/-- What the records of the quintet stand for. -/
def Instance.quintet : Instance where
  name := ""
  days := 1
  periods := 1
  daily := ⟨0, 0⟩
  courses := #[⟨"algebra", "first", 1, 1, 10, false, [], 0⟩,
    ⟨"optics", "second", 1, 1, 10, false, [], 1⟩,
    ⟨"logic", "third", 1, 1, 10, false, [], 2⟩,
    ⟨"botany", "fourth", 1, 1, 10, false, [], 3⟩,
    ⟨"drawing", "fifth", 1, 1, 10, false, [], 4⟩]
  rooms := #[⟨"hall", 20, 0⟩, ⟨"attic", 30, 0⟩, ⟨"cellar", 40, 0⟩, ⟨"studio", 50, 0⟩, ⟨"den", 10, 0⟩]
  curricula := #[]
  teachers := #["first", "second", "third", "fourth", "fifth"]
  unavailable := ⟨1, #[false, false, false, false, false]⟩
  forbidden := ⟨5, #[
    false, true, true, true, true,
    true, true, false, false, true,
    false, false, true, true, true,
    false, true, true, true, false,
    false, true, false, true, false]⟩

namespace Draft

/-- The five courses are added one after another, each where it fits, and the first one is taken away
    again. Now the second takes the cellar and the third the hall, which leaves the den alone to the
    last two. -/
theorem not_withRooms_quintet : Records.quintet.resolve = .ok Instance.quintet ∧
    ∃ es, (empty : Draft quintet).guarded es = true ∧
      allottable ((ofEdits es : Draft quintet).coursesAt ⟨0, by decide⟩) = false ∧
      (ofEdits es : Draft quintet).withRooms = .error ⟨⟨4, by decide⟩, ⟨0, by decide⟩⟩ :=
  ⟨by decide, [.add ⟨0, 0, 0⟩, .add ⟨1, 0, 0⟩, .add ⟨2, 0, 0⟩, .add ⟨3, 0, 0⟩, .add ⟨4, 0, 0⟩,
    .remove ⟨0, 0, 0⟩], by decide, by decide, by decide⟩

end Draft

end Timetabling
