import Timetabling.Proofs.Variation.Graft
import Timetabling.Variation.Mutation

/-! A mutant is the draft of its parent after one change, with rooms again. An exchange takes two
    placements out and puts both courses back, a move takes out one, and only a draft to which every
    lecture came back gets rooms. So mutants have the lectures of their parent. -/

namespace Timetabling

open Instance Draw

variable {I : Instance} {d e : Draft I} {demand : CourseIx I → Nat}

namespace Draft

theorem Covers.lifted_of_mem (h : d.Covers [] demand) {p : Placement I} (hp : p ∈ d.placements) :
    (d.lifted p.course p.slot).Covers [p.course] demand :=
  h.lifted (h.sound.mem_placements.1 hp)

/-- An exchange is made between different courses at different slots, when each course fits in turn. -/
theorem exchange?_eq_some_iff {a b : Placement I} : d.exchange? a b = some e ↔
    a.course ≠ b.course ∧ a.slot ≠ b.slot ∧
      ((d.lifted a.course a.slot).lifted b.course b.slot).fits a.course b.slot = true ∧
      (((d.lifted a.course a.slot).lifted b.course b.slot).placed a.course b.slot).fits b.course
        a.slot = true ∧
      (((d.lifted a.course a.slot).lifted b.course b.slot).placed a.course b.slot).placed b.course
        a.slot = e := by
  simp only [exchange?, Option.ite_none_left_eq_some, Option.ite_none_right_eq_some,
    Option.some.injEq, not_or, and_assoc, ne_eq]

theorem Covers.exchange? (h : d.Covers [] demand) (hI : I.Coherent) {a b : Placement I}
    (ha : a ∈ d.placements) (hb : b ∈ d.placements) (hok : d.exchange? a b = some e) :
    e.Covers [] demand := by
  obtain ⟨hne, -, hfirst, hsecond, rfl⟩ := exchange?_eq_some_iff.1 hok
  have hsa := h.sound.mem_placements.1 ha
  have hsb : b.slot ∈ (d.lifted a.course a.slot).slotsOf b.course :=
    (h.sound.mem_slotsOf_lifted hsa).2 ⟨h.sound.mem_placements.1 hb, fun he => hne he.1.symm⟩
  have hboth := (h.lifted_of_mem ha).lifted hsb
  have hhalf := (hboth.perm (.swap a.course b.course [])).placed_of_fits hI hfirst
  exact hhalf.placed_of_fits hI hsecond

end Draft

namespace MutationKind

/-- What one attempt makes of a draft: two placements were taken out and put back, each at the slot of
    the other, or one was put back at another slot. -/
inductive Changes (d : Draft I) : MutationKind → Draft I → Prop
  | exchange {a b : Placement I} {e : Draft I} : a ∈ d.placements → b ∈ d.placements →
      d.exchange? a b = some e → Changes d .exchange e
  | move {m : Placement I} {s : Slot I} : m ∈ d.placements → s ≠ m.slot →
      (d.lifted m.course m.slot).fits m.course s = true →
      Changes d .move ((d.lifted m.course m.slot).placed m.course s)

variable {kind : MutationKind}

theorem Changes.covers (h : kind.Changes d e) (hI : I.Coherent) (hd : d.Covers [] demand) :
    e.Covers [] demand := by
  cases h with
  | exchange ha hb he => exact hd.exchange? hI ha hb he
  | move hm _ hfits => exact (hd.lifted_of_mem hm).placed_of_fits hI hfits

/-- The timetable is a changed draft that got its rooms again. -/
def Makes (kind : MutationKind) (d : Draft I) (child : Timetable I) : Prop :=
  ∃ e, kind.Changes d e ∧ e.withRooms = .ok child

theorem makes_of_bind_withRooms {o : Option (Draft I)} (ho : ∀ e ∈ o, kind.Changes d e) :
    ∀ child ∈ o.bind fun e => e.withRooms.toOption, kind.Makes d child := by
  intro child hchild
  obtain ⟨e, he, hrooms⟩ := Option.bind_eq_some_iff.1 hchild
  exact ⟨e, ho e he, toOption_eq_some_iff.1 hrooms⟩

/-- What gets rooms again has the lectures that the draft had. -/
theorem Makes.lodged {child : Timetable I} (h : kind.Makes d child) (hI : I.Coherent)
    (hd : d.Covers [] demand) : child.Lodged demand := by
  obtain ⟨e, he, hrooms⟩ := h
  exact ⟨e, he.covers hI hd, hrooms⟩

end MutationKind

/-! ### Attempts -/

variable {σ : Type} [WordSource σ]

theorem gives_drawExchange (hpos : 0 < d.placements.length) :
    Gives (drawExchange d : Draw σ (Option (Draft I)))
      fun o => ∀ e ∈ o, MutationKind.exchange.Changes d e :=
  (gives_below hpos).bind fun a _ => (gives_below hpos).bind fun b _ => gives_pure fun _ he =>
    .exchange (List.getElem_mem a.isLt) (List.getElem_mem b.isLt) he

theorem gives_placeElsewhere (hI : I.Coherent) (d : Draft I) (c : CourseIx I) (home : Slot I)
    (tries : Nat) : Gives (placeElsewhere d c home tries : Draw σ (Option (Draft I)))
      fun o => ∀ e ∈ o, ∃ s, s ≠ home ∧ d.fits c s = true ∧ d.placed c s = e := by
  induction tries with
  | zero => exact gives_none
  | succ tries ih =>
    refine (gives_drawSlot hI).bind ?_
    intro s _
    split
    · rename_i hs
      exact gives_some ⟨s, hs.1, hs.2, rfl⟩
    · exact ih

theorem gives_drawMove (hI : I.Coherent) (hpos : 0 < d.placements.length) (tries : Nat) :
    Gives (drawMove d tries : Draw σ (Option (Draft I)))
      fun o => ∀ e ∈ o, MutationKind.move.Changes d e := by
  refine (gives_below hpos).bind fun m _ => (gives_placeElsewhere hI _ _ _ tries).mono ?_
  intro o ho e he
  obtain ⟨s, hs, hfits, rfl⟩ := ho e he
  exact .move (List.getElem_mem m.isLt) hs hfits

namespace MutationKind

theorem gives_attempt (hI : I.Coherent) (hpos : 0 < d.placements.length) (kind : MutationKind)
    (tries : Nat) : Gives (kind.attempt d tries : Draw σ (Option (Timetable I)))
      fun o => ∀ child ∈ o, kind.Makes d child := by
  cases kind with
  | exchange =>
    exact (gives_drawExchange hpos).bind fun _ ho => gives_pure (makes_of_bind_withRooms ho)
  | move =>
    exact (gives_drawMove hI hpos tries).bind fun _ ho => gives_pure (makes_of_bind_withRooms ho)

theorem gives_within (hI : I.Coherent) (hpos : 0 < d.placements.length) (kind : MutationKind)
    (tries attempts : Nat) : Gives (kind.within d tries attempts : Draw σ (Option (Timetable I)))
      fun o => ∀ child ∈ o, kind.Makes d child := by
  induction attempts with
  | zero => exact gives_none
  | succ attempts ih =>
    refine (kind.gives_attempt hI hpos tries).bind ?_
    intro o ho
    cases o with
    | none => exact ih
    | some child => exact gives_pure ho

/-- A mutation always comes to an end, and a mutant is the parent's draft changed once. -/
theorem gives_makes (hI : I.Coherent) (t : Timetable I) (kind : MutationKind) (settings : Settings) :
    Gives (kind.mutate settings t : Draw σ (Option (Timetable I)))
      fun o => ∀ child ∈ o, kind.Makes t.withoutRooms child := by
  simp only [mutate]
  split
  · exact gives_none
  · rename_i hneeds
    have hpos : 0 < t.withoutRooms.placements.length :=
      Nat.lt_of_lt_of_le (by cases kind <;> decide) (Nat.le_of_not_lt hneeds)
    exact kind.gives_within hI hpos _ _

/-- A mutant lost no lecture and gained none. -/
theorem gives_mutate (hI : I.Coherent) {t : Timetable I} (h : t.Covers demand)
    (kind : MutationKind) (settings : Settings) :
    Gives (kind.mutate settings t : Draw σ (Option (Timetable I)))
      fun o => ∀ child ∈ o, child.Lodged demand :=
  (kind.gives_makes hI t settings).mono fun _ ho child hchild =>
    (ho child hchild).lodged hI (h.withoutRooms hI)

end MutationKind

end Timetabling
