import Timetabling.Proofs.Construction.Looseness
import Timetabling.Proofs.Timetable.History
import Timetabling.Proofs.Variation.Mutation

/-! What a mutant differs in from its parent. A change is told as what it does to the set of placements:
    an exchange takes two of them out and puts each course at the slot of the other, a move takes out
    one. What is put in was not there before, so every course keeps its number of meetings, and the
    mutant is never the parent with other rooms. The parent's draft has all of its placements when its
    courses are available at their slots, and giving out the rooms changes none of them. -/

namespace Timetabling

open Instance Draw

variable {I : Instance}

namespace MutationKind

/-- What the change does to a set of placements. -/
inductive Alters (P : Finset (Placement I)) : MutationKind → Finset (Placement I) → Prop
  | exchange {a b : Placement I} : a ∈ P → b ∈ P → a.course ≠ b.course → a.slot ≠ b.slot →
      ⟨a.course, b.slot⟩ ∉ P → ⟨b.course, a.slot⟩ ∉ P →
      Alters P .exchange (P \ {a, b} ∪ {⟨a.course, b.slot⟩, ⟨b.course, a.slot⟩})
  | move {m : Placement I} {s : Slot I} : m ∈ P → s ≠ m.slot → ⟨m.course, s⟩ ∉ P →
      Alters P .move (P \ {m} ∪ {⟨m.course, s⟩})

variable {kind : MutationKind} {P Q : Finset (Placement I)} {d e : Draft I}

theorem Alters.ne (h : kind.Alters P Q) : Q ≠ P := by
  cases h with
  | exchange _ _ _ _ hnew _ => exact fun he => hnew (he ▸ by simp)
  | move _ _ hnew => exact fun he => hnew (he ▸ by simp)

theorem sdiff_union_eq_insert_erase (P : Finset (Placement I)) (p q : Placement I) :
    P \ {p} ∪ {q} = insert q (P.erase p) := by
  rw [Finset.sdiff_singleton_eq_erase, Finset.union_comm, Finset.insert_eq]

theorem sdiff_union_eq_insert_insert (P : Finset (Placement I)) (a b p q : Placement I) :
    P \ {a, b} ∪ {p, q} = insert q (insert p ((P.erase a).erase b)) := by
  ext x
  simp only [Finset.mem_union, Finset.mem_sdiff, Finset.mem_insert, Finset.mem_singleton,
    Finset.mem_erase]
  tauto

/-- No course gains a meeting, and none loses one. -/
theorem Alters.count_eq (h : kind.Alters P Q) (c : CourseIx I) :
    Placement.count Q c = Placement.count P c := by
  cases h with
  | @exchange a b ha hb hcourse _ hab hba =>
    have hb' : b ∈ P.erase a := Finset.mem_erase.2 ⟨fun he => hcourse (he ▸ rfl), hb⟩
    have hfirst : ⟨a.course, b.slot⟩ ∉ (P.erase a).erase b := fun hmem =>
      hab (Finset.mem_of_mem_erase (Finset.mem_of_mem_erase hmem))
    have hsecond : ⟨b.course, a.slot⟩ ∉ insert ⟨a.course, b.slot⟩ ((P.erase a).erase b) := by
      intro hmem
      rcases Finset.mem_insert.1 hmem with he | hmem
      · exact hcourse (Placement.mk.inj he).1.symm
      · exact hba (Finset.mem_of_mem_erase (Finset.mem_of_mem_erase hmem))
    rw [sdiff_union_eq_insert_insert, Placement.count_insert hsecond, Placement.count_insert hfirst,
      ← Placement.count_erase ha c, ← Placement.count_erase hb' c, Nat.add_right_comm]
  | @move m s hm _ hnew =>
    have hnew' : ⟨m.course, s⟩ ∉ P.erase m := fun hmem => hnew (Finset.mem_of_mem_erase hmem)
    rw [sdiff_union_eq_insert_erase, Placement.count_insert hnew', ← Placement.count_erase hm c]

/-- A changed draft keeps the changed set. -/
theorem Changes.alters (h : d.Represents P) (hI : I.Coherent) (hchange : kind.Changes d e) :
    ∃ Q, e.Represents Q ∧ kind.Alters P Q := by
  cases hchange with
  | @exchange a b _ ha hb hok =>
    obtain ⟨hcourse, hslot, hfirst, hsecond, rfl⟩ := Draft.exchange?_eq_some_iff.1 hok
    rw [h.mem_placements] at ha hb
    have hb' : b ∈ P.erase a := Finset.mem_erase.2 ⟨fun he => hcourse (he ▸ rfl), hb⟩
    obtain ⟨hab, hhalf⟩ := ((h.lifted ha).lifted hb').placed_of_fits hI hfirst
    obtain ⟨hba, hboth⟩ := hhalf.placed_of_fits hI hsecond
    refine ⟨_, hboth, sdiff_union_eq_insert_insert P a b .. ▸ .exchange ha hb hcourse hslot ?_ ?_⟩
    · intro hmem
      refine hab (Finset.mem_erase.2 ⟨fun he => hcourse (congrArg Placement.course he :), ?_⟩)
      exact Finset.mem_erase.2 ⟨fun he => hslot (congrArg Placement.slot he :).symm, hmem⟩
    · intro hmem
      refine hba (Finset.mem_insert_of_mem (Finset.mem_erase.2
        ⟨fun he => hslot (congrArg Placement.slot he :), ?_⟩))
      exact Finset.mem_erase.2 ⟨fun he => hcourse (congrArg Placement.course he :).symm, hmem⟩
  | @move m s hm hs hfits =>
    rw [h.mem_placements] at hm
    obtain ⟨hnew, hmoved⟩ := (h.lifted hm).placed_of_fits hI hfits
    refine ⟨_, hmoved, sdiff_union_eq_insert_erase P m _ ▸ .move hm hs ?_⟩
    exact fun hmem =>
      hnew (Finset.mem_erase.2 ⟨fun he => hs (congrArg Placement.slot he :), hmem⟩)

end MutationKind

namespace Timetable

open Booking

/-- The placements of the bookings, as a set. -/
def placementSet (t : Timetable I) : Finset (Placement I) := (t.bookings.map placement).toFinset

/-- The timetable is the other one after one change of this kind: it has the placements that the change
    leaves, as many meetings of every course, and bookings that keep out of each other's way, each at an
    available slot and in a suitable room. -/
structure IsMutant (kind : MutationKind) (parent child : Timetable I) : Prop where
  alters : kind.Alters parent.placementSet child.placementSet
  lectures_eq : ∀ c, child.lectures c = parent.lectures c
  placements_ne : child.placementSet ≠ parent.placementSet
  sound : child.Sound

variable {t child : Timetable I} {M : Finset (Booking I)} {kind : MutationKind}

theorem Keeps.placementSet_eq (h : t.Keeps M) : t.placementSet = M.image placement := by
  ext p
  simp [placementSet, h.mem_bookings]

theorem Represents.isMutant (h : t.Represents M) (hI : I.Coherent)
    (hav : ∀ b ∈ M, I.isAvailable b.course b.slot = true)
    (hchild : kind.Makes t.withoutRooms child) : t.IsMutant kind child := by
  obtain ⟨e, he, hrooms⟩ := hchild
  obtain ⟨Q, hQ, halters⟩ := he.alters (h.withoutRooms hI hav) hI
  obtain ⟨N, hN, rfl, hsuited⟩ := hQ.withRooms hI hrooms
  rw [← h.placementSet_eq, ← hN.placementSet_eq] at halters
  refine ⟨halters, ?_, halters.ne, N, hN, hsuited⟩
  intro c
  rw [hN.lectures_eq, h.lectures_eq, ← hN.exclusive.count_image, ← h.exclusive.count_image,
    ← h.placementSet_eq, ← hN.placementSet_eq, halters.count_eq]

end Timetable

/-- A mutation changes what it says and nothing else: of a timetable whose courses are available at their
    slots, whatever the settings and the words, two meetings of different courses exchange their different
    slots or one meeting goes to a slot where its course was not. -/
theorem gives_mutate_isMutant {σ : Type} [WordSource σ] {r : Records} {I : Instance}
    (h : r.resolve = .ok I) {t : Timetable I} (es : List (Edit RoomMeeting))
    (ht : Timetable.ofEdits es = t)
    (hav : ∀ b ∈ t.bookings, I.isAvailable b.course b.slot = true) (kind : MutationKind)
    (settings : Settings) : Gives (kind.mutate settings t : Draw σ (Option (Timetable I)))
      fun o => ∀ child ∈ o, t.IsMutant kind child := by
  have hI := Records.coherent_of_resolve h
  obtain ⟨M, hM⟩ := Timetable.exists_represents hI es
  rw [ht] at hM
  refine (kind.gives_makes hI t settings).mono ?_
  intro o ho child hchild
  exact hM.isMutant hI (fun b hb => hav b (hM.mem_bookings.2 hb)) (ho child hchild)

/-- A meeting of the pair moves from the first day to the second, and on the roomy grid two courses of
    different teachers exchange their slots. -/
theorem gives_mutate_isMutant_pair :
    (∃ (t child : Timetable pair) (rest : Script), Timetable.ofEdits [.add ⟨0, 0, 0, 0⟩] = t ∧
      (MutationKind.move.mutate {} t).run ⟨#[0, 0x8000000000000000, 0], 0⟩ =
        some (some child, rest) ∧
      t.IsMutant .move child) ∧
    ∃ (t child : Timetable roomy) (rest : Script),
      Timetable.ofEdits [.add ⟨0, 1, 0, 0⟩, .add ⟨2, 0, 1, 0⟩] = t ∧
      (MutationKind.exchange.mutate {} t).run ⟨#[0, 0x8000000000000000], 0⟩ =
        some (some child, rest) ∧
      t.IsMutant .exchange child := by
  have hmutant : ∀ {r : Records} {I : Instance} (_ : r.resolve = .ok I) (es : List (Edit RoomMeeting))
      (_ : ∀ b ∈ (Timetable.ofEdits es : Timetable I).bookings, I.isAvailable b.course b.slot = true)
      (kind : MutationKind) (s : Script),
      (((kind.mutate {} (Timetable.ofEdits es : Timetable I)).run s).bind Prod.fst).isSome = true →
      ∃ (t child : Timetable I) (rest : Script), Timetable.ofEdits es = t ∧
        (kind.mutate {} t).run s = some (some child, rest) ∧ t.IsMutant kind child := by
    intro r I h es hav kind s hsome
    obtain ⟨o, rest, hrun, ho⟩ := gives_mutate_isMutant h es rfl hav kind {} s
    rw [hrun] at hsome
    obtain ⟨child, rfl⟩ := Option.isSome_iff_exists.1 hsome
    exact ⟨_, child, rest, rfl, hrun, ho child rfl⟩
  exact ⟨hmutant Records.resolve_pair _ (by decide) .move _ (by decide),
    hmutant Records.resolve_roomy _ (by decide) .exchange _ (by decide)⟩

end Timetabling
