import Timetabling.Proofs.Checked.Outputs
import Timetabling.Proofs.Checked.Variation
import Timetabling.Proofs.Construction.Build
import Timetabling.Proofs.Variation.Donation
import Timetabling.Proofs.Variation.Mutation

/-! No operation on an instance from records fails, whatever timetables it is given. The timetables may
    be infeasible: giving up the rooms then drops the lectures at slots that are not available, and what
    is left is a draft like any other. -/

namespace Timetabling

open Instance Draw

variable {I : Instance} {σ : Type} [WordSource σ]

/-- Checking every look-up does not change the draw, and from every source the draw succeeds. -/
structure Draw.Unfailing {α : Type} (checked x : Draw σ α) : Prop where
  eq : checked = x
  gives : Gives x fun _ => True

namespace Timetable

def checkedEdit (t : Timetable I) : Edit RoomMeeting → Option (Timetable I)
  | .add m => do return (← t.checkedAdd m).toOption.getD t
  | .remove m => t.checkedRemove m
  | .replace m => do return (← t.checkedReplace m).outcome

def checkedOfEdits (es : List (Edit RoomMeeting)) : Option (Timetable I) :=
  es.foldlM checkedEdit empty

/-- The timetable with its rooms given up and then given out again. -/
def checkedReroomed (t : Timetable I) : Option (Except (Shortage I) (Timetable I)) := do
  (← t.checkedWithoutRooms).checkedWithRooms

section

variable (hI : I.Coherent)

include hI

theorem checkedEdit_eq (t : Timetable I) (e : Edit RoomMeeting) :
    t.checkedEdit e = some (t.edit e) := by
  cases e with
  | add m => rw [checkedEdit, checkedAdd_eq hI]; rfl
  | remove m => exact checkedRemove_eq hI t m
  | replace m => rw [checkedEdit, checkedReplace_eq hI]; rfl

theorem checkedOfEdits_eq (es : List (Edit RoomMeeting)) :
    (checkedOfEdits es : Option (Timetable I)) = some (ofEdits es) := by
  have hstep : checkedEdit = fun (t : Timetable I) e => some (t.edit e) :=
    funext fun t => funext fun e => checkedEdit_eq hI t e
  rw [checkedOfEdits, hstep]
  exact List.foldlM_pure ..

theorem checkedReroomed_eq (t : Timetable I) :
    t.checkedReroomed = some t.withoutRooms.withRooms := by
  rw [checkedReroomed, t.checkedWithoutRooms_eq hI]
  exact t.withoutRooms.checkedWithRooms_eq hI

end

/-! ### Draws from any timetable -/

variable {t u : Timetable I} {M N : Finset (Booking I)}

namespace Represents

/-- What is left without rooms is a draft that covers itself. -/
theorem covers_withoutRooms (h : t.Represents M) (hI : I.Coherent) :
    t.withoutRooms.Covers [] t.withoutRooms.lectures :=
  ⟨⟨_, h.withoutRooms_available hI⟩, fun _ => rfl⟩

theorem gives_graft (h : t.Represents M) (hI : I.Coherent) (settings : Settings)
    (donated : List (Donation I)) :
    Gives (graft settings t donated : Draw σ (Timetable I)) fun _ => True := by
  unfold graft
  split
  · exact gives_pure trivial
  · have hv : Gives (vacate t.withoutRooms donated : Draw σ (Vacated I)) fun v =>
        ∃ total, True ∧ v.draft.Covers (v.incoming.map Donation.course) total :=
      (gives_vacate (h.covers_withoutRooms hI) donated).mono
        fun _ ⟨total, _, hcovers⟩ => ⟨total, trivial, hcovers⟩
    exact (gives_graftWithin_lodged hI hv _ _).mono fun _ _ => trivial

theorem gives_cross (ht : t.Represents M) (hu : u.Represents N) (hI : I.Coherent)
    (rule : DonationRule) (settings : Settings) :
    Gives (cross rule settings t u : Draw σ (Timetable I × Timetable I)) fun _ => True :=
  (gives_cross_of_gives_graft hI ht.toKeeps hu.toKeeps rule settings
    (fun _ _ => ht.gives_graft hI settings _) (fun _ _ => hu.gives_graft hI settings _)).mono
    fun _ _ => trivial

end Represents

/-- Whatever is made of the timetable alone is made without a failure: mutants, grafts of meetings
    whose courses exist, the draft, the timetable with other rooms, the report and the texts. -/
structure Unfailing (t : Timetable I) (σ : Type) [WordSource σ] : Prop where
  mutate : ∀ (kind : MutationKind) settings, Draw.Unfailing
    (kind.checkedMutate settings t : Draw σ (Option (Timetable I))) (kind.mutate settings t)
  graft : ∀ settings donated, (∀ m ∈ donated, m.course < I.courses.size) → Draw.Unfailing
    (checkedGraftMeetings settings t donated : Draw σ (Timetable I))
    (graftMeetings settings t donated)
  withoutRooms : t.checkedWithoutRooms = some t.withoutRooms
  reroomed : t.checkedReroomed = some t.withoutRooms.withRooms
  report : t.checkedReport = some t.report
  solutionText : t.checkedSolutionText = some t.solutionText
  gridText : t.checkedGridText = some t.gridText

theorem Represents.unfailing (h : t.Represents M) (hI : I.Coherent) : t.Unfailing σ where
  mutate kind settings := ⟨kind.checkedMutate_eq hI settings t,
    (kind.gives_makes hI t settings).mono fun _ _ => trivial⟩
  graft settings donated hdonated := by
    obtain ⟨ds, hds⟩ := exists_mapM_ofMeeting? hdonated
    refine ⟨checkedGraftMeetings_eq hI settings t donated, ?_⟩
    rw [graftMeetings, hds]
    exact h.gives_graft hI settings ds
  withoutRooms := t.checkedWithoutRooms_eq hI
  reroomed := t.checkedReroomed_eq hI
  report := t.checkedReport_eq
  solutionText := t.checkedSolutionText_eq hI
  gridText := h.checkedGridText_eq

end Timetable

/-- Nothing fails on the instance: no history of changes, no population, no crossover of two
    timetables with such histories, and nothing that is made of one of them alone. -/
structure Instance.Unfailing (I : Instance) (σ : Type) [WordSource σ] : Prop where
  ofEdits : ∀ es, Timetable.checkedOfEdits es = some (Timetable.ofEdits es : Timetable I)
  buildMany : ∀ limit size, Draw.Unfailing
    (checkedBuildMany I limit size : Draw σ (Except BuildError (List (Timetable I))))
    (Timetabling.buildMany I limit size)
  cross : ∀ rule settings es fs, Draw.Unfailing
    (checkedCross rule settings (.ofEdits es) (.ofEdits fs) : Draw σ (Timetable I × Timetable I))
    (Timetabling.cross rule settings (.ofEdits es) (.ofEdits fs))
  timetable : ∀ es, (Timetable.ofEdits es : Timetable I).Unfailing σ

/-- On an instance from records no look-up misses, no difference falls below zero and no number below
    zero is drawn, whatever the settings, the words and the histories of the timetables are. -/
theorem unfailing_of_resolve {r : Records} (h : r.resolve = .ok I) : I.Unfailing σ where
  ofEdits := Timetable.checkedOfEdits_eq (Records.coherent_of_resolve h)
  buildMany limit size :=
    ⟨checkedBuildMany_eq (Records.tabled_of_resolve h) limit size,
      (gives_buildMany (Records.coherent_of_resolve h) limit size).mono fun _ _ => trivial⟩
  cross rule settings es fs := by
    have hI := Records.coherent_of_resolve h
    obtain ⟨M, hM⟩ := Timetable.exists_represents hI es
    obtain ⟨N, hN⟩ := Timetable.exists_represents hI fs
    exact ⟨checkedCross_eq hI rule settings _ _, hM.gives_cross hN hI rule settings⟩
  timetable es := by
    have hI := Records.coherent_of_resolve h
    obtain ⟨M, hM⟩ := Timetable.exists_represents hI es
    exact hM.unfailing hI

theorem unfailing_of_resolve_pair : Records.pair.resolve = .ok pair ∧
    ∃ children rest, (checkedCross (.sector 1) {} (.ofEdits [.add ⟨0, 0, 0, 0⟩]) .empty :
      Draw Script (Timetable pair × Timetable pair)).run ⟨#[3], 0⟩ = some (children, rest) := by
  have h : pair.Unfailing Script := unfailing_of_resolve Records.resolve_pair
  have hcross := h.cross (.sector 1) {} [.add ⟨0, 0, 0, 0⟩] []
  obtain ⟨children, rest, hrun, -⟩ := hcross.gives ⟨#[3], 0⟩
  refine ⟨Records.resolve_pair, children, rest, ?_⟩
  rw [← hcross.eq] at hrun
  exact hrun

end Timetabling
