import Timetabling.Proofs.Draft.Guarded

/-! A probe of a slot foretells what comes of adding a course there. The probe inserts the course into a
    copy of the list of the slot, and the change inserts it into the list that is kept. Both insert it
    where the courses before it end, and in a list that ascends there is one such place, so rooms are
    tried for the courses that the slot will have, in the order in which it will have them. -/

namespace Timetabling

open Instance

variable {I : Instance}

/-- The place in the list where those that have the property end and those that do not begin. -/
structure PartsAt {α : Type} (p : α → Prop) (xs : List α) (k : Nat) : Prop where
  le_length : k ≤ xs.length
  before : ∀ x ∈ xs.take k, p x
  behind : ∀ x ∈ xs.drop k, ¬p x

section

variable {α : Type} {key : α → Nat} {a : α} {xs : List α} {k : Nat}

/-- Wherever the elements with a lower key end, that is where a new one goes. -/
theorem PartsAt.insertAscending_eq (h : PartsAt (fun x => key x < key a) xs k) :
    insertAscending key a xs = xs.insertIdx k a := by
  obtain ⟨hlen, hbefore, hbehind⟩ := h
  induction xs generalizing k with
  | nil =>
    obtain rfl := Nat.le_zero.1 hlen
    rfl
  | cons b bs ih =>
    cases k with
    | zero => rw [insertAscending, if_neg (hbehind b (List.mem_cons_self ..)), List.insertIdx_zero]
    | succ k =>
      rw [insertAscending, if_pos (hbefore b (List.mem_cons_self ..)), List.insertIdx_succ_cons]
      rw [ih (Nat.le_of_succ_le_succ hlen) (fun x hx => hbefore x (List.mem_cons_of_mem _ hx)) hbehind]

theorem Ascending.exists_partsAt (h : Ascending key xs) (n : Nat) :
    ∃ k, PartsAt (fun x => key x < n) xs k := by
  induction xs with
  | nil => exact ⟨0, le_rfl, nofun, nofun⟩
  | cons b bs ih =>
    obtain ⟨hb, hbs⟩ := List.pairwise_cons.1 h
    by_cases hlt : key b < n
    · obtain ⟨k, hlen, hbefore, hbehind⟩ := ih hbs
      refine ⟨k + 1, Nat.succ_le_succ hlen, ?_, hbehind⟩
      rw [List.take_succ_cons]
      exact List.forall_mem_cons.2 ⟨hlt, hbefore⟩
    · refine ⟨0, Nat.zero_le _, nofun, ?_⟩
      rw [List.drop_zero]
      refine List.forall_mem_cons.2 ⟨hlt, fun x hx => ?_⟩
      have hbx := hb x hx
      omega

end

namespace Draft

/-- To probe the meeting tells what comes of adding it. -/
structure Foretells (d : Draft I) (m : Meeting) : Prop where
  fitsMeeting_iff : d.fitsMeeting m = true ↔ ∃ e s, d.add? m = some e ∧
    I.slotAt? m.day m.period = some s ∧ allottable (e.coursesAt s) = true
  /-- Rooms are tried for the list that is kept afterwards. -/
  same_list : ∀ p : Placement I, p.meeting = m →
    ∃ k, PartsAt (fun c => c < p.course) (d.coursesAt p.slot) k ∧
      d.fitsMeeting m =
        (d.canAdd m && allottable ((d.coursesAt p.slot).insertIdx k p.course)) ∧
      ∀ e, d.add? m = some e → e.coursesAt p.slot = (d.coursesAt p.slot).insertIdx k p.course

variable {d e : Draft I} {P : Finset (Placement I)} {c : CourseIx I} {s : Slot I} {m : Meeting}
  {p : Placement I}

theorem fits_iff : d.fits c s = true ↔
    ∃ e, d.place? c s = some e ∧ allottable (e.coursesAt s) = true := by
  rw [fits, Bool.and_eq_true]
  simp only [place?_eq_some_iff]
  constructor
  · rintro ⟨ha, hrooms⟩
    refine ⟨_, ⟨ha, rfl⟩, ?_⟩
    rwa [coursesAt_put, if_pos rfl]
  · rintro ⟨_, ⟨ha, rfl⟩, hrooms⟩
    rw [coursesAt_put, if_pos rfl] at hrooms
    exact ⟨ha, hrooms⟩

theorem slotAt?_of_meeting (h : p.meeting = m) : I.slotAt? m.day m.period = some p.slot := by
  subst h
  exact slotAt?_dayOf_periodOf p.slot

theorem fitsMeeting_iff_add? (d : Draft I) (m : Meeting) : d.fitsMeeting m = true ↔
    ∃ e s, d.add? m = some e ∧ I.slotAt? m.day m.period = some s ∧
      allottable (e.coursesAt s) = true := by
  simp only [fitsMeeting, Option.any_eq_true, fits_iff, add?, Option.bind_eq_some_iff]
  constructor
  · rintro ⟨p, hp, e, he, hrooms⟩
    exact ⟨e, p.slot, ⟨p, hp, he⟩, slotAt?_of_meeting (Meeting.placement?_eq_some_iff.1 hp), hrooms⟩
  · rintro ⟨e, s, ⟨p, hp, he⟩, hs, hrooms⟩
    rw [slotAt?_of_meeting (Meeting.placement?_eq_some_iff.1 hp)] at hs
    exact ⟨p, hp, e, he, Option.some.inj hs ▸ hrooms⟩

theorem Keeps.exists_same_list (h : d.Keeps P) (hp : p.meeting = m) :
    ∃ k, PartsAt (fun c => c < p.course) (d.coursesAt p.slot) k ∧
      d.fitsMeeting m = (d.canAdd m && allottable ((d.coursesAt p.slot).insertIdx k p.course)) ∧
      ∀ e, d.add? m = some e → e.coursesAt p.slot = (d.coursesAt p.slot).insertIdx k p.course := by
  obtain ⟨k, hk⟩ := (h.ascending_coursesAt p.slot).exists_partsAt p.course.val
  have hplacement := Meeting.placement?_eq_some_iff.2 hp
  refine ⟨k, hk, ?_, ?_⟩
  · rw [fitsMeeting, canAdd, hplacement, Option.any_some, Option.any_some, fits,
      hk.insertAscending_eq]
  · intro e he
    rw [add?, hplacement, Option.bind_some] at he
    obtain ⟨-, rfl⟩ := place?_eq_some_iff.1 he
    rw [coursesAt_put, if_pos rfl, hk.insertAscending_eq]

/-- On a draft that came about by changes a meeting fits just when it can be added and the courses of its
    slot can then be allotted rooms. The list for which rooms are tried is, element for element, the
    list that the slot has afterwards. -/
theorem foretells_ofEdits {r : Records} {I : Instance} (h : r.resolve = .ok I)
    (es : List (Edit Meeting)) (m : Meeting) : (ofEdits es : Draft I).Foretells m := by
  obtain ⟨P, hP⟩ := exists_represents (Records.coherent_of_resolve h) es
  exact ⟨fitsMeeting_iff_add? _ m, fun _ => hP.exists_same_list⟩

/-- The last course can be added to the three before it, but it does not fit. -/
theorem foretells_ofEdits_quintet : Records.quintet.resolve = .ok quintet ∧
    (ofEdits [.add ⟨1, 0, 0⟩, .add ⟨2, 0, 0⟩, .add ⟨3, 0, 0⟩] : Draft quintet).canAdd ⟨4, 0, 0⟩ =
      true ∧
    ¬∃ (e : Draft quintet) (s : Slot quintet),
      (ofEdits [.add ⟨1, 0, 0⟩, .add ⟨2, 0, 0⟩, .add ⟨3, 0, 0⟩]).add? ⟨4, 0, 0⟩ = some e ∧
      quintet.slotAt? 0 0 = some s ∧ allottable (e.coursesAt s) = true := by
  have hresolve : Records.quintet.resolve = .ok quintet := by decide
  refine ⟨hresolve, by decide, ?_⟩
  refine (not_congr (foretells_ofEdits hresolve _ ⟨4, 0, 0⟩).fitsMeeting_iff).1 ?_
  decide

end Draft

end Timetabling
