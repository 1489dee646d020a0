import Timetabling.Proofs.Random.Draw
import Timetabling.Proofs.Rooming
import Timetabling.Proofs.Timetable.History
import Timetabling.Proofs.Variation.Displacement

/-! Grafts lose no lecture. Taking meetings out for donations, displacing courses and placing those
    that wait move lectures between the draft and two lists, and `Covers` holds all along. A donation
    for which no meeting could be taken out adds a lecture to the demand. This never happens when every
    donation is on the grid and no course is donated more often than the recipient has it: the
    donations that are missing are then no more than the slots where nothing is donated. -/

namespace Timetabling

open Instance Draw

variable {I : Instance} {demand : CourseIx I → Nat} {c : CourseIx I} {s : Slot I}

/-! ### One donation goes in -/

namespace Draft

variable {d : Draft I} {waiting : List (CourseIx I)} {m : Donation I}

/-- Once the one in the way is taken out and the course is put in, that one waits instead. -/
theorem Covers.exchanged (h : d.Covers (c :: waiting) demand) (hI : I.Coherent) {old : CourseIx I}
    (hold : s ∈ d.slotsOf old) (ha : (d.cut old s).admits c s = true) :
    ((d.cut old s).put c s).Covers (old :: waiting) demand := by
  obtain ⟨P, hP⟩ := h.sound
  have hlift := h.lifted hold
  rw [hP.lifted_eq_cut (hP.mem_slotsOf.1 hold)] at hlift
  rw [← placed_eq_put ha]
  exact (hlift.perm (.swap c old waiting)).placed hI ha

theorem Covers.settle (h : d.Covers (m.course :: waiting) demand) (hI : I.Coherent) :
    (d.settle m).1.Covers ((d.settle m).2 ++ waiting) demand := by
  obtain ⟨P, hP⟩ := h.sound
  rcases hP.settle_cases hI m with ⟨s, hfits, he⟩ | ⟨s, old, hone, ha, he⟩ | he <;> rw [he]
  · exact h.placed_of_fits hI hfits
  · exact h.exchanged hI (hP.mem_slotsOf.2 (Placement.mem_of_hindrances_eq hone)) ha
  · exact h

theorem Covers.settleAll {ms : List (Donation I)}
    (h : d.Covers (ms.map Donation.course ++ waiting) demand) (hI : I.Coherent) :
    (d.settleAll ms).1.Covers ((d.settleAll ms).2 ++ waiting) demand := by
  induction ms generalizing d waiting with
  | nil => exact h
  | cons m ms ih =>
    have hsettle := Covers.settle (by simpa using h) hI
    have hrest := ih (hsettle.perm (List.perm_append_comm_assoc ..))
    simp only [Draft.settleAll]
    rw [List.append_assoc]
    exact hrest.perm (List.perm_append_comm_assoc ..)

end Draft

/-! ### Those that wait go in -/

variable {σ : Type} [WordSource σ] {d : Draft I} {waiting : List (CourseIx I)}

theorem gives_drawSlot (hI : I.Coherent) : Gives (drawSlot I : Draw σ (Slot I)) fun _ => True :=
  (gives_below hI.days_pos).bind fun _ _ =>
    (gives_below hI.periods_pos).bind fun _ _ => gives_pure trivial

theorem gives_placeAnywhere (hI : I.Coherent) (d : Draft I) (c : CourseIx I) (tries : Nat) :
    Gives (placeAnywhere d c tries : Draw σ (Option (Draft I)))
      fun o => ∀ e ∈ o, ∃ s, d.fits c s = true ∧ e = d.placed c s := by
  induction tries with
  | zero => exact gives_none
  | succ tries ih =>
    refine (gives_drawSlot hI).bind ?_
    intro s _
    split
    · rename_i hfits
      exact gives_some ⟨s, hfits, rfl⟩
    · exact ih

/-- A course that waits is placed at a slot that it fits, in a gap or anywhere. -/
theorem gives_placeWaiting (hI : I.Coherent) (gaps : List (Slot I)) (tries : Nat) (d : Draft I)
    (c : CourseIx I) : Gives (placeWaiting gaps tries d c : Draw σ (Option (Draft I)))
      fun o => ∀ e ∈ o, ∃ s, d.fits c s = true ∧ e = d.placed c s := by
  unfold placeWaiting
  split
  · rename_i s hs
    exact gives_some ⟨s, List.find?_some hs, rfl⟩
  · exact gives_placeAnywhere hI d c tries

/-- What placing a course preserves holds in the end, when none waits. `R` sees those that wait. -/
theorem gives_placeAllWaiting (hI : I.Coherent) {R : List (CourseIx I) → Draft I → Prop}
    (hR : ∀ {c cs d s}, R (c :: cs) d → d.fits c s = true → R cs (d.placed c s)) (h : R waiting d)
    (gaps : List (Slot I)) (tries : Nat) :
    Gives (placeAllWaiting gaps tries d waiting : Draw σ (Option (Draft I)))
      fun o => ∀ e ∈ o, R [] e := by
  induction waiting generalizing d with
  | nil => exact gives_some h
  | cons c cs ih =>
    refine (gives_placeWaiting hI gaps tries d c).bind ?_
    intro o ho
    cases o with
    | none => exact gives_none
    | some e =>
      obtain ⟨s, hfits, rfl⟩ := ho e rfl
      exact ih (hR h hfits)

/-! ### Meetings are taken out -/

namespace Donation

variable {m : Donation I}

theorem claims_iff : m.claims c s = true ↔ m.course = c ∧ I.slotNumber m.day m.period = s := by
  simp [claims]

theorem slotNumber_eq_of_slot? (h : m.slot? = some s) : I.slotNumber m.day m.period = s := by
  simp only [slot?, slotAt?, Option.dite_none_right_eq_some, Option.some.injEq] at h
  obtain ⟨-, rfl⟩ := h
  rfl

/-- A donation claims the slot where it is. -/
theorem claims_of_slot? (h : m.slot? = some s) : m.claims m.course s = true :=
  claims_iff.2 ⟨rfl, slotNumber_eq_of_slot? h⟩

end Donation

theorem Draft.hasDonation_iff {m : Donation I} :
    d.hasDonation m = true ↔ ∃ s, m.slot? = some s ∧ s ∈ d.slotsOf m.course := by
  simp [hasDonation, Option.any_eq_true]

/-- The slots of the course where nothing is donated. -/
def spareSlots (donated : List (Donation I)) (d : Draft I) (c : CourseIx I) : List (Slot I) :=
  (d.slotsOf c).filter fun s => !donated.any (·.claims c s)

/-- The number of donations of the course. -/
def copies (ms : List (Donation I)) (c : CourseIx I) : Nat := (ms.map Donation.course).count c

/-- The number of donations of the course that the draft does not have. -/
def missing (d : Draft I) (ms : List (Donation I)) (c : CourseIx I) : Nat :=
  ms.countP fun m => m.course = c && !d.hasDonation m

variable {donated : List (Donation I)} {v : Vacated I} {m : Donation I}

/-- A donation that is there changes nothing; for another one a spare slot is given up, if any. -/
theorem gives_vacateFor (donated : List (Donation I)) (v : Vacated I) (m : Donation I) :
    Gives (vacateFor donated v m : Draw σ (Vacated I)) fun v' =>
      (v.draft.hasDonation m = true ∧ v' = v) ∨
      (v.draft.hasDonation m = false ∧ spareSlots donated v.draft m.course = [] ∧
        v' = { v with incoming := v.incoming ++ [m] }) ∨
      (v.draft.hasDonation m = false ∧ ∃ s ∈ spareSlots donated v.draft m.course,
        v' = ⟨v.draft.lifted m.course s, v.gaps ++ [s], v.incoming ++ [m]⟩) := by
  cases hm : v.draft.hasDonation m with
  | true =>
    simp only [vacateFor, hm, if_true]
    exact gives_pure (.inl ⟨trivial, rfl⟩)
  | false =>
    simp only [vacateFor, hm, Bool.false_eq_true, if_false]
    refine (gives_among _).bind ?_
    intro o ho
    rcases ho with ⟨hnil, rfl⟩ | ⟨s, hs, rfl⟩
    · exact gives_pure (.inr (.inl ⟨trivial, hnil, rfl⟩))
    · exact gives_pure (.inr (.inr ⟨trivial, s, hs, rfl⟩))

theorem Draft.Covers.vacated (h : v.draft.Covers (v.incoming.map Donation.course) demand)
    (hs : s ∈ v.draft.slotsOf m.course) :
    (v.draft.lifted m.course s).Covers ((v.incoming ++ [m]).map Donation.course) demand := by
  rw [List.map_append]
  exact (h.lifted hs).perm (List.perm_append_singleton ..).symm

/-- What a number of donations can do to a demand: it does not fall, and it does not rise by more
    than those donations. -/
def Within (demand : CourseIx I → Nat) (ms : List (Donation I)) (total : CourseIx I → Nat) : Prop :=
  ∀ c, demand c ≤ total c ∧ total c ≤ demand c + copies ms c

/-- What holds while meetings are taken out: the demand has not risen by more than the donations
    that are done with. -/
def VacatingWithin (donated rest : List (Donation I)) (demand : CourseIx I → Nat)
    (v : Vacated I) : Prop :=
  ∃ total, v.draft.Covers (v.incoming.map Donation.course) total ∧
    ∀ c, demand c ≤ total c ∧ total c + copies rest c ≤ demand c + copies donated c

theorem copies_cons (m : Donation I) (ms : List (Donation I)) (c : CourseIx I) :
    copies (m :: ms) c = copies ms c + if m.course = c then 1 else 0 := by
  simp [copies, List.count_cons]

theorem VacatingWithin.step {rest : List (Donation I)}
    (h : VacatingWithin donated (m :: rest) demand v) :
    Gives (vacateFor donated v m : Draw σ (Vacated I)) (VacatingWithin donated rest demand) := by
  obtain ⟨total, hv, hle⟩ := h
  simp only [copies_cons] at hle
  refine (gives_vacateFor donated v m).mono ?_
  intro v' hv'
  rcases hv' with ⟨-, rfl⟩ | ⟨-, -, rfl⟩ | ⟨-, s, hs, rfl⟩
  · refine ⟨total, hv, ?_⟩
    intro c
    have := hle c
    omega
  · -- nothing left the draft, so the demand rises by the donated lecture
    refine ⟨fun c => total c + if m.course = c then 1 else 0, ⟨hv.sound, ?_⟩, ?_⟩
    · intro c
      have hadd := hv.lectures_add c
      simp only [List.map_append, List.map_cons, List.map_nil, List.count_append,
        List.count_singleton, beq_iff_eq]
      omega
    · intro c
      have := hle c
      dsimp only
      omega
  · refine ⟨total, hv.vacated (List.mem_of_mem_filter hs), ?_⟩
    intro c
    have := hle c
    omega

theorem gives_vacate (h : d.Covers [] demand) (donated : List (Donation I)) :
    Gives (vacate d donated : Draw σ (Vacated I)) fun v =>
      ∃ total, Within demand donated total ∧
        v.draft.Covers (v.incoming.map Donation.course) total := by
  have hstart : VacatingWithin donated donated demand ⟨d, [], []⟩ :=
    ⟨demand, h, fun c => ⟨Nat.le_refl _, Nat.le_refl _⟩⟩
  have hfold : Gives (vacate d donated : Draw σ (Vacated I)) (VacatingWithin donated [] demand) :=
    gives_foldlM (R := fun rest => VacatingWithin donated rest demand) (fun _ _ _ hv => hv.step) hstart
  refine hfold.mono ?_
  rintro v ⟨total, hv, hle⟩
  refine ⟨total, ?_, hv⟩
  intro c
  simpa [copies] using hle c

/-! ### Donations that the recipient can match -/

/-- Every donation is on the grid, and no course is donated more often than it is demanded. -/
structure Matched (donated : List (Donation I)) (demand : CourseIx I → Nat) : Prop where
  onGrid : ∀ m ∈ donated, ∃ s, m.slot? = some s
  copies_le : ∀ c, copies donated c ≤ demand c

/-- The lectures at donated slots are no more than the donations that the draft has. -/
theorem length_claimed_le (hd : d.Sound) (hgrid : ∀ m ∈ donated, ∃ s, m.slot? = some s)
    (c : CourseIx I) :
    ((d.slotsOf c).filter fun s => donated.any (·.claims c s)).length ≤
      donated.countP fun m => m.course = c && d.hasDonation m := by
  rw [List.countP_eq_length_filter]
  set had := donated.filter fun m => m.course = c && d.hasDonation m
  have hsub : ((d.slotsOf c).filter fun s => donated.any (·.claims c s)) ⊆
      had.filterMap Donation.slot? := by
    intro s hs
    obtain ⟨hs, hany⟩ := List.mem_filter.1 hs
    obtain ⟨m, hm, hclaim⟩ := List.any_eq_true.1 hany
    obtain ⟨rfl, hnum⟩ := Donation.claims_iff.1 hclaim
    obtain ⟨s', hs'⟩ := hgrid m hm
    obtain rfl : s' = s := Fin.ext ((Donation.slotNumber_eq_of_slot? hs').symm.trans hnum)
    refine List.mem_filterMap.2 ⟨m, List.mem_filter.2 ⟨hm, ?_⟩, hs'⟩
    simp only [decide_true, Bool.true_and]
    exact Draft.hasDonation_iff.2 ⟨s', hs', hs⟩
  calc ((d.slotsOf c).filter fun s => donated.any (·.claims c s)).length
      ≤ (had.filterMap Donation.slot?).length :=
        (((hd.nodup_slotsOf c).filter _).subperm hsub).length_le
    _ ≤ had.length := List.length_filterMap_le ..

/-- At first there is a spare slot for every donation that is missing. -/
theorem missing_le_length_spareSlots (hd : d.Covers [] demand) (hm : Matched donated demand)
    (c : CourseIx I) : missing d donated c ≤ (spareSlots donated d c).length := by
  have hclaimed := length_claimed_le hd.sound hm.onGrid c
  have hcount := hm.copies_le c
  have hlectures := hd.lectures_add c
  have hsplit : copies donated c =
      (donated.countP fun m => m.course = c && d.hasDonation m) + missing d donated c := by
    rw [copies, List.count, List.countP_map, missing, List.countP_eq_countP_filter_add _ _ d.hasDonation,
      List.countP_filter, List.countP_filter]
    simp [beq_eq_decide]
  have hslots := List.length_eq_length_filter_add (l := d.slotsOf c)
    fun s => donated.any (·.claims c s)
  rw [List.count_nil, Draft.lectures] at hlectures
  simp only [spareSlots]
  omega

/-- What holds while meetings are taken out for matched donations: the demand is as it was, and
    there is a spare slot for each of the remaining donations that is missing. -/
structure VacatingMatched (donated rest : List (Donation I)) (demand : CourseIx I → Nat)
    (v : Vacated I) : Prop where
  mem_donated : ∀ x ∈ rest, x ∈ donated
  covers : v.draft.Covers (v.incoming.map Donation.course) demand
  missing_le : ∀ c, missing v.draft rest c ≤ (spareSlots donated v.draft c).length

/-- Giving up a spare slot takes no donation away. -/
theorem hasDonation_lifted (hd : d.Sound) (hs : s ∈ spareSlots donated d c) (hm : m ∈ donated) :
    (d.lifted c s).hasDonation m = d.hasDonation m := by
  obtain ⟨hs, hspare⟩ := List.mem_filter.1 hs
  rw [Bool.eq_iff_iff, Draft.hasDonation_iff, Draft.hasDonation_iff]
  refine exists_congr fun s' => and_congr_right ?_
  intro hs'
  rw [hd.mem_slotsOf_lifted hs]
  refine and_iff_left ?_
  rintro ⟨hc, he⟩
  have hclaim := Donation.claims_of_slot? hs'
  rw [hc, he] at hclaim
  rw [List.any_eq_true.2 ⟨m, hm, hclaim⟩] at hspare
  cases hspare

theorem mem_spareSlots_lifted (hd : d.Sound) (hs : s ∈ spareSlots donated d c) {c' : CourseIx I}
    {s' : Slot I} : s' ∈ spareSlots donated (d.lifted c s) c' ↔
      s' ∈ spareSlots donated d c' ∧ ¬(c' = c ∧ s' = s) := by
  rw [spareSlots, spareSlots, List.mem_filter, List.mem_filter,
    hd.mem_slotsOf_lifted (List.mem_of_mem_filter hs), and_right_comm]

theorem length_spareSlots_lifted (hd : d.Sound) (hd' : (d.lifted c s).Sound)
    (hs : s ∈ spareSlots donated d c) (c' : CourseIx I) :
    ((spareSlots donated (d.lifted c s) c').length + if c = c' then 1 else 0) =
      (spareSlots donated d c').length := by
  have hnd : (spareSlots donated d c').Nodup := (hd.nodup_slotsOf c').filter _
  have hnd' : (spareSlots donated (d.lifted c s) c').Nodup := (hd'.nodup_slotsOf c').filter _
  by_cases hc : c = c'
  · subst hc
    have hperm : (spareSlots donated (d.lifted c s) c).Perm ((spareSlots donated d c).erase s) := by
      refine (List.perm_ext_iff_of_nodup hnd' (hnd.erase s)).2 ?_
      intro s'
      rw [mem_spareSlots_lifted hd hs, hnd.mem_erase_iff, and_comm]
      simp
    rw [if_pos rfl, hperm.length_eq, List.length_erase_add_one hs]
  · have hperm : (spareSlots donated (d.lifted c s) c').Perm (spareSlots donated d c') := by
      refine (List.perm_ext_iff_of_nodup hnd' hnd).2 ?_
      intro s'
      rw [mem_spareSlots_lifted hd hs]
      exact and_iff_left fun ⟨e, _⟩ => hc e.symm
    rw [if_neg hc, hperm.length_eq, Nat.add_zero]

theorem missing_cons (d : Draft I) (m : Donation I) (ms : List (Donation I)) (c : CourseIx I) :
    missing d (m :: ms) c =
      missing d ms c + if m.course = c ∧ d.hasDonation m = false then 1 else 0 := by
  simp [missing, List.countP_cons]

theorem VacatingMatched.step {rest : List (Donation I)}
    (h : VacatingMatched donated (m :: rest) demand v) :
    Gives (vacateFor donated v m : Draw σ (Vacated I)) (VacatingMatched donated rest demand) := by
  have hrest : ∀ x ∈ rest, x ∈ donated := fun x hx => h.mem_donated x (List.mem_cons_of_mem _ hx)
  have hle := h.missing_le
  simp only [missing_cons] at hle
  refine (gives_vacateFor donated v m).mono ?_
  intro v' hv'
  rcases hv' with ⟨-, rfl⟩ | ⟨hmiss, hnil, -⟩ | ⟨hmiss, s, hs, rfl⟩
  · refine ⟨hrest, h.covers, ?_⟩
    intro c
    have := hle c
    omega
  · -- the donation is missing, so a slot was spare
    have := hle m.course
    rw [if_pos ⟨rfl, hmiss⟩, hnil, List.length_nil] at this
    omega
  · have hcovers := h.covers.vacated (List.mem_of_mem_filter hs)
    refine ⟨hrest, hcovers, ?_⟩
    intro c
    have hlen := length_spareSlots_lifted h.covers.sound hcovers.sound hs c
    have hsame : missing (v.draft.lifted m.course s) rest c = missing v.draft rest c :=
      List.countP_congr fun x hx => by
        rw [hasDonation_lifted h.covers.sound hs (hrest x hx)]
    have := hle c
    simp only [hmiss, and_true] at this
    dsimp only
    rw [hsame]
    omega

theorem gives_vacate_of_matched (h : d.Covers [] demand) (hm : Matched donated demand) :
    Gives (vacate d donated : Draw σ (Vacated I)) fun v =>
      v.draft.Covers (v.incoming.map Donation.course) demand := by
  have hstart : VacatingMatched donated donated demand ⟨d, [], []⟩ :=
    ⟨fun _ hx => hx, h, missing_le_length_spareSlots h hm⟩
  have hfold : Gives (vacate d donated : Draw σ (Vacated I)) (VacatingMatched donated [] demand) :=
    gives_foldlM (R := fun rest => VacatingMatched donated rest demand) (fun _ _ _ hv => hv.step) hstart
  exact hfold.mono fun v hv => hv.covers

/-! ### The whole graft -/

variable {t : Timetable I}

/-- What holds when the donations are settled, and what placing a course preserves, holds of the draft
    that gets rooms in the end. -/
theorem gives_graftOnce (hI : I.Coherent) {R : List (CourseIx I) → Draft I → Prop}
    (hR : ∀ {c cs d s}, R (c :: cs) d → d.fits c s = true → R cs (d.placed c s))
    (hv : Gives (vacate t.withoutRooms donated : Draw σ (Vacated I)) fun v =>
      R (v.draft.settleAll v.incoming).2 (v.draft.settleAll v.incoming).1) (tries : Nat) :
    Gives (graftOnce t donated tries : Draw σ (Option (Timetable I)))
      fun o => ∀ child ∈ o, ∃ d, R [] d ∧ d.withRooms = .ok child := by
  refine hv.bind ?_
  intro v hsettled
  refine (gives_placeAllWaiting hI hR hsettled v.gaps tries).bind ?_
  intro o ho
  cases o with
  | none => exact gives_none
  | some e => exact gives_pure fun child hchild => ⟨e, ho e rfl, toOption_eq_some_iff.1 hchild⟩

/-- The recipient is kept, or a repair gave a child. -/
theorem gives_graftWithin (hI : I.Coherent) {R : List (CourseIx I) → Draft I → Prop}
    (hR : ∀ {c cs d s}, R (c :: cs) d → d.fits c s = true → R cs (d.placed c s))
    (hv : Gives (vacate t.withoutRooms donated : Draw σ (Vacated I)) fun v =>
      R (v.draft.settleAll v.incoming).2 (v.draft.settleAll v.incoming).1) (tries attempts : Nat) :
    Gives (graftWithin t donated tries attempts : Draw σ (Timetable I))
      fun child => child = t ∨ ∃ d, R [] d ∧ d.withRooms = .ok child := by
  induction attempts with
  | zero => exact gives_pure (.inl rfl)
  | succ attempts ih =>
    refine (gives_graftOnce hI hR hv tries).bind ?_
    intro o ho
    cases o with
    | none => exact ih
    | some child => exact gives_pure (.inr (ho child rfl))

/-- A draft that covers a demand while the donations wait leads to a child with just those lectures. -/
theorem gives_graftWithin_lodged (hI : I.Coherent) {Good : (CourseIx I → Nat) → Prop}
    (hv : Gives (vacate t.withoutRooms donated : Draw σ (Vacated I)) fun v =>
      ∃ total, Good total ∧ v.draft.Covers (v.incoming.map Donation.course) total)
    (tries attempts : Nat) :
    Gives (graftWithin t donated tries attempts : Draw σ (Timetable I))
      fun child => child = t ∨ ∃ total, Good total ∧ child.Lodged total := by
  have hsettled : Gives (vacate t.withoutRooms donated : Draw σ (Vacated I)) fun v =>
      ∃ total, Good total ∧
        (v.draft.settleAll v.incoming).1.Covers (v.draft.settleAll v.incoming).2 total := by
    refine hv.mono ?_
    rintro v ⟨total, hgood, hcovers⟩
    rw [← List.append_nil (v.incoming.map Donation.course)] at hcovers
    exact ⟨total, hgood, by simpa using hcovers.settleAll hI⟩
  refine (gives_graftWithin hI
    (R := fun waiting d => ∃ total, Good total ∧ d.Covers waiting total) ?_ hsettled _ _).mono ?_
  · rintro c cs d s ⟨total, hgood, hcovers⟩ hfits
    exact ⟨total, hgood, hcovers.placed_of_fits hI hfits⟩
  · rintro child (rfl | ⟨d, ⟨total, hgood, hcovers⟩, hrooms⟩)
    · exact .inl rfl
    · exact .inr ⟨total, hgood, d, hcovers, hrooms⟩

/-- A graft keeps the recipient or gives a child from a draft that lost no lecture; matched donations
    bring it none either. -/
theorem gives_graft_cases (hI : I.Coherent) (ht : t.Covers demand) (settings : Settings)
    (donated : List (Donation I)) :
    Gives (graft settings t donated : Draw σ (Timetable I)) fun child => child = t ∨
      ∃ total, (Within demand donated total ∧ (Matched donated demand → total = demand)) ∧
        child.Lodged total := by
  unfold graft
  split
  · exact gives_pure (.inl rfl)
  · refine gives_graftWithin_lodged hI ?_ _ _
    have hd := ht.withoutRooms hI
    by_cases hm : Matched donated demand
    · have hself : Within demand donated demand := fun c => ⟨Nat.le_refl _, Nat.le_add_right ..⟩
      exact (gives_vacate_of_matched hd hm).mono fun v hv => ⟨demand, ⟨hself, fun _ => rfl⟩, hv⟩
    · exact (gives_vacate hd donated).mono fun v ⟨total, hle, hv⟩ =>
        ⟨total, ⟨hle, fun h => absurd h hm⟩, hv⟩

/-- A graft always gives a child, which is sound and lost no lecture; matched donations bring it
    none either. -/
theorem gives_graft (hI : I.Coherent) (ht : t.Covers demand) (settings : Settings)
    (donated : List (Donation I)) :
    Gives (graft settings t donated : Draw σ (Timetable I)) fun child =>
      ∃ total, (Within demand donated total ∧ (Matched donated demand → total = demand)) ∧
        child.Covers total := by
  refine (gives_graft_cases hI ht settings donated).mono ?_
  rintro child (rfl | ⟨total, htotal, hchild⟩)
  · exact ⟨demand, ⟨fun c => ⟨Nat.le_refl _, Nat.le_add_right ..⟩, fun _ => rfl⟩, ht⟩
  · exact ⟨total, htotal, hchild.covers hI⟩

/-! ### Meetings by plain numbers -/

/-- The number of meetings of the course in the list. -/
def meetingsOf (ms : List RoomMeeting) (c : CourseIx I) : Nat := ms.countP fun m => m.course = c.val

theorem exists_mapM_ofMeeting? {ms : List RoomMeeting} (h : ∀ m ∈ ms, m.course < I.courses.size) :
    ∃ ds, ms.mapM (Donation.ofMeeting? I) = some ds := by
  induction ms with
  | nil => exact ⟨[], rfl⟩
  | cons m ms ih =>
    obtain ⟨ds, hds⟩ := ih fun x hx => h x (List.mem_cons_of_mem _ hx)
    have hc : I.courseIx? m.course = some ⟨m.course, h m (List.mem_cons_self ..)⟩ :=
      courseIx?_eq_some_iff.2 rfl
    exact ⟨⟨⟨m.course, _⟩, m.day, m.period⟩ :: ds, by
      rw [List.mapM_cons, Donation.ofMeeting?, hc, hds]
      rfl⟩

/-- A donation is at the day and the period of its meeting. -/
theorem Donation.ofMeeting?_eq_some {x : RoomMeeting} (h : Donation.ofMeeting? I x = some m) :
    m.course.val = x.course ∧ m.slot? = I.slotAt? x.day x.period := by
  obtain ⟨c, hc, rfl⟩ := Option.map_eq_some_iff.1 h
  exact ⟨courseIx?_eq_some_iff.1 hc, rfl⟩

theorem copies_of_mapM {ms : List RoomMeeting} {ds : List (Donation I)}
    (h : ms.mapM (Donation.ofMeeting? I) = some ds) (c : CourseIx I) :
    copies ds c = meetingsOf ms c := by
  have hrel := forall₂_of_mapM h
  clear h
  induction hrel with
  | nil => rfl
  | @cons x m xs ds hx _ ih =>
    have hc := (Donation.ofMeeting?_eq_some hx).1
    rw [copies_cons, ih, meetingsOf, meetingsOf, List.countP_cons, ← hc]
    simp [Fin.ext_iff]

theorem exists_slot?_of_mapM {ms : List RoomMeeting} {ds : List (Donation I)}
    (h : ms.mapM (Donation.ofMeeting? I) = some ds)
    (hgrid : ∀ x ∈ ms, x.day < I.days ∧ x.period < I.periods) :
    ∀ m ∈ ds, ∃ s, m.slot? = some s := by
  have hrel := forall₂_of_mapM h
  clear h
  induction hrel with
  | nil => exact nofun
  | @cons x m xs ds hx _ ih =>
    intro m' hm'
    rcases List.mem_cons.1 hm' with rfl | hm'
    · rw [(Donation.ofMeeting?_eq_some hx).2]
      exact ⟨_, dif_pos (hgrid x (List.mem_cons_self ..))⟩
    · exact ih (fun x hx => hgrid x (List.mem_cons_of_mem _ hx)) m' hm'

theorem Timetable.Represents.sound {M : Finset (Booking I)} (h : t.Represents M)
    (hsuited : ∀ b ∈ t.bookings, b.Suited) : t.Sound :=
  ⟨M, h, fun b hb => hsuited b (h.mem_bookings.2 hb)⟩

/-- Whatever is donated, grafting gives a child: sound, with the lectures of the recipient, and with
    no more than the donated ones besides. When the donations are on the grid and no course is donated
    more often than the recipient has it, the child has just the lectures of the recipient. -/
theorem gives_graftMeetings {r : Records} {I : Instance} (h : r.resolve = .ok I)
    {t : Timetable I} (es : List (Edit RoomMeeting)) (ht : Timetable.ofEdits es = t)
    (hsuited : ∀ b ∈ t.bookings, b.Suited) (settings : Settings) (donated : List RoomMeeting)
    (hdonated : ∀ m ∈ donated, m.course < I.courses.size) :
    Gives (graftMeetings settings t donated : Draw σ (Timetable I)) fun child =>
      child.Sound ∧
      (∀ c, t.lectures c ≤ child.lectures c ∧
        child.lectures c ≤ t.lectures c + meetingsOf donated c) ∧
      ((∀ m ∈ donated, m.day < I.days ∧ m.period < I.periods) →
        (∀ c, meetingsOf donated c ≤ t.lectures c) → ∀ c, child.lectures c = t.lectures c) := by
  have hI := Records.coherent_of_resolve h
  obtain ⟨M, hM⟩ := Timetable.exists_represents hI es
  rw [ht] at hM
  obtain ⟨ds, hds⟩ := exists_mapM_ofMeeting? hdonated
  simp only [graftMeetings, hds]
  refine (gives_graft hI ⟨hM.sound hsuited, fun _ => rfl⟩ settings ds).mono ?_
  rintro child ⟨total, ⟨hwithin, hmatched⟩, hchild⟩
  refine ⟨hchild.sound, ?_, ?_⟩
  · intro c
    rw [hchild.lectures_eq, ← copies_of_mapM hds]
    exact hwithin c
  · intro hgrid hcount c
    have hm : Matched ds t.lectures := by
      refine ⟨exists_slot?_of_mapM hds hgrid, ?_⟩
      intro c
      rw [copies_of_mapM hds]
      exact hcount c
    rw [hchild.lectures_eq, hmatched hm]

theorem gives_graftMeetings_pair : ∃ (child : Timetable pair) (rest : Script),
    (graftMeetings {} (Timetable.ofEdits [.add ⟨0, 0, 0, 0⟩, .add ⟨1, 1, 0, 1⟩] : Timetable pair)
      [⟨0, 1, 0, 0⟩]).run ⟨#[0, 7], 0⟩ = some (child, rest) ∧ child.Sound ∧
    ∀ c, child.lectures c = (Timetable.ofEdits [.add ⟨0, 0, 0, 0⟩, .add ⟨1, 1, 0, 1⟩] :
      Timetable pair).lectures c := by
  obtain ⟨child, rest, hrun, hsound, -, hexact⟩ :=
    gives_graftMeetings Records.resolve_pair [.add ⟨0, 0, 0, 0⟩, .add ⟨1, 1, 0, 1⟩] rfl (by decide)
      {} [⟨0, 1, 0, 0⟩] (by decide) (⟨#[0, 7], 0⟩ : Script)
  exact ⟨child, rest, hrun, hsound, hexact (by decide) (by decide)⟩

end Timetabling
