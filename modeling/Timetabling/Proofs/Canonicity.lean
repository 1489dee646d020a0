import Timetabling.Proofs.Timetable.History

/-! States without a history. What is in a draft or in a timetable determines all of its tables, so two
    that came about in different ways are equal just when they hold the same. The order in which
    meetings are added leaves no trace, and neither does a change that was undone. -/

namespace Timetabling

open Instance

variable {I : Instance}

/-! ### Steps in any order -/

section

variable {α β ε : Type}

/-- Where two steps that succeed one after the other succeed the other way round too and end in the
    same state, steps may be made in any order. -/
theorem foldlM_eq_some_of_perm {step : β → α → Option β} {P : β → Prop}
    (hstep : ∀ {b a c}, P b → step b a = some c → P c)
    (hswap : ∀ {b a a' c d}, P b → step b a = some c → step c a' = some d →
      ∃ c', step b a' = some c' ∧ step c' a = some d)
    {xs ys : List α} (hp : xs.Perm ys) {b c : β} (hb : P b) (hc : xs.foldlM step b = some c) :
    ys.foldlM step b = some c := by
  induction hp generalizing b with
  | nil => exact hc
  | cons a _ ih =>
    rw [List.foldlM_cons] at hc ⊢
    obtain ⟨b', hb', hc⟩ := Option.bind_eq_some_iff.1 hc
    exact Option.bind_eq_some_iff.2 ⟨b', hb', ih (hstep hb hb') hc⟩
  | swap a a' xs =>
    simp only [List.foldlM_cons] at hc ⊢
    obtain ⟨b₁, h₁, hc⟩ := Option.bind_eq_some_iff.1 hc
    obtain ⟨b₂, h₂, hc⟩ := Option.bind_eq_some_iff.1 hc
    obtain ⟨b₁', h₁', h₂'⟩ := hswap hb h₁ h₂
    exact Option.bind_eq_some_iff.2 ⟨b₁', h₁', Option.bind_eq_some_iff.2 ⟨b₂, h₂', hc⟩⟩
  | trans _ _ ih₁ ih₂ => exact ih₂ hb (ih₁ hb hc)

theorem toOption_eq_some_iff {x : Except ε α} {a : α} : x.toOption = some a ↔ x = .ok a := by
  cases x <;> simp [Except.toOption]

theorem toOption_foldlM (f : β → α → Except ε β) (xs : List α) (b : β) :
    (xs.foldlM f b).toOption = xs.foldlM (fun b a => (f b a).toOption) b := by
  induction xs generalizing b with
  | nil => rfl
  | cons a xs ih =>
    rw [List.foldlM_cons, List.foldlM_cons]
    cases h : f b a with
    | error e => rfl
    | ok b' => exact ih b'

end

/-! ### Timetables -/

namespace Timetable

open Booking

variable {t u v : Timetable I} {M : Finset (Booking I)}

theorem add_eq_ok_iff {m : RoomMeeting} :
    t.add m = .ok u ↔ ∃ b : Booking I, b.meeting = m ∧ t.clash? b = none ∧ t.put b = u := by
  simp only [← RoomMeeting.booking?_eq_some_iff, ← place_eq_ok_iff]
  cases hm : m.booking? I <;> simp [add, hm]

theorem remove?_eq_some_iff {m : RoomMeeting} :
    t.remove? m = some u ↔ ∃ b : Booking I, b.meeting = m ∧ b ∈ t.bookingsOf b.course ∧ t.cut b = u := by
  simp only [remove?, Option.bind_eq_some_iff, RoomMeeting.booking?_eq_some_iff, lift?_eq_some_iff]

/-- What was put in can be cut away, and every table is as it was. -/
theorem Represents.cut_put (h : t.Represents M) {b : Booking I} (hfree : Free M b) :
    (t.put b).cut b = t := by
  have hcut := ((h.put hfree).cut (Finset.mem_insert_self ..)).toKeeps
  rw [Finset.erase_insert hfree.notMem] at hcut
  exact hcut.unique h.toKeeps

theorem Represents.remove?_of_add (h : t.Represents M) (hI : I.Coherent) {m : RoomMeeting}
    (hadd : t.add m = .ok u) : u.remove? m = some t := by
  obtain ⟨b, rfl, hclash, rfl⟩ := add_eq_ok_iff.1 hadd
  have hfree := (h.clash?_eq_none_iff_free hI).1 hclash
  refine remove?_eq_some_iff.2 ⟨b, rfl, ?_, h.cut_put hfree⟩
  exact (h.put hfree).mem_bookingsOf.2 ⟨Finset.mem_insert_self .., rfl⟩

theorem Represents.add_of_remove? (h : t.Represents M) (hI : I.Coherent) {m : RoomMeeting}
    (hremove : t.remove? m = some u) : u.add m = .ok t := by
  obtain ⟨b, rfl, hb, rfl⟩ := remove?_eq_some_iff.1 hremove
  have hbM := (h.mem_bookingsOf.1 hb).1
  refine add_eq_ok_iff.2 ⟨b, rfl, ?_, h.put_cut hbM⟩
  refine ((h.cut hbM).clash?_eq_none_iff_free hI).2 ?_
  intro o ho hs
  obtain ⟨hne, ho⟩ := Finset.mem_erase.1 ho
  exact h.exclusive b hbM o ho hs.symm hne.symm

/-- Two bookings that can be put in one after the other can be put in the other way round. -/
theorem Represents.add_swap (h : t.Represents M) (hI : I.Coherent) {m m' : RoomMeeting}
    (hadd : t.add m = .ok u) (hadd' : u.add m' = .ok v) :
    ∃ w, t.add m' = .ok w ∧ w.add m = .ok v := by
  obtain ⟨b, rfl, hclash, rfl⟩ := add_eq_ok_iff.1 hadd
  obtain ⟨b', rfl, hclash', rfl⟩ := add_eq_ok_iff.1 hadd'
  have hfree := (h.clash?_eq_none_iff_free hI).1 hclash
  have hb := h.put hfree
  have hfree' := (hb.clash?_eq_none_iff_free hI).1 hclash'
  have hfirst : Free M b' := fun o ho => hfree' o (Finset.mem_insert_of_mem ho)
  have hb' := h.put hfirst
  have hsecond : Free (insert b' M) b := by
    intro o ho hs
    rcases Finset.mem_insert.1 ho with rfl | ho
    · exact (hfree' b (Finset.mem_insert_self ..) hs.symm).symm
    · exact hfree o ho hs
  refine ⟨_, add_eq_ok_iff.2 ⟨b', rfl, (h.clash?_eq_none_iff_free hI).2 hfirst, rfl⟩,
    add_eq_ok_iff.2 ⟨b, rfl, (hb'.clash?_eq_none_iff_free hI).2 hsecond, ?_⟩⟩
  have hboth := (hb'.put hsecond).toKeeps
  rw [Finset.insert_comm] at hboth
  exact hboth.unique (hb.put hfree').toKeeps

theorem Represents.addAll_of_perm (h : t.Represents M) (hI : I.Coherent) {ms ms' : List RoomMeeting}
    (hok : t.addAll ms = .ok u) (hp : ms.Perm ms') : t.addAll ms' = .ok u := by
  have hfold : ∀ ms, (t.addAll ms).toOption = ms.foldlM (fun t m => (t.add m).toOption) t :=
    fun ms => toOption_foldlM add ms t
  rw [← toOption_eq_some_iff, hfold] at hok ⊢
  refine foldlM_eq_some_of_perm (P := fun t => ∃ M, t.Represents M) ?_ ?_ hp ⟨M, h⟩ hok
  · rintro t m u ⟨M, hM⟩ hadd
    obtain ⟨N, hN⟩ := hM.exists_add hI m
    exact ⟨N, by simpa [hadd] using hN⟩
  · rintro t m m' u v ⟨M, hM⟩ hadd hadd'
    simp only [toOption_eq_some_iff] at hadd hadd' ⊢
    exact hM.add_swap hI hadd hadd'

/-- The timetable shows nothing of how it came about. -/
structure Canonical (t : Timetable I) : Prop where
  eq_ofEdits_iff : ∀ es, t = ofEdits es ↔ ∀ b, b ∈ t.bookings ↔ b ∈ (ofEdits es).bookings
  addAll_of_perm : ∀ {ms ms' u}, t.addAll ms = .ok u → ms.Perm ms' → t.addAll ms' = .ok u
  remove?_of_add : ∀ {m u}, t.add m = .ok u → u.remove? m = some t
  add_of_remove? : ∀ {m u}, t.remove? m = some u → u.add m = .ok t

theorem Keeps.eq_iff_bookings {N : Finset (Booking I)} (ht : t.Keeps M) (hu : u.Keeps N) :
    t = u ↔ ∀ b, b ∈ t.bookings ↔ b ∈ u.bookings := by
  constructor
  · rintro rfl b
    rfl
  · intro hsame
    obtain rfl : M = N := Finset.ext fun b => by rw [← ht.mem_bookings, hsame, hu.mem_bookings]
    exact ht.unique hu

theorem Represents.canonical (h : t.Represents M) (hI : I.Coherent) : t.Canonical where
  eq_ofEdits_iff es := by
    obtain ⟨N, hN⟩ := exists_represents hI es
    exact h.toKeeps.eq_iff_bookings hN.toKeeps
  addAll_of_perm := h.addAll_of_perm hI
  remove?_of_add := h.remove?_of_add hI
  add_of_remove? := h.add_of_remove? hI

end Timetable

/-! ### Drafts -/

namespace Draft

open Placement

variable {d e f : Draft I} {P : Finset (Placement I)}

/-- The draft with the meetings added one after another, if every slot takes what comes to it. -/
def addAll? (d : Draft I) (ms : List Meeting) : Option (Draft I) := ms.foldlM add? d

theorem add?_eq_some_iff {m : Meeting} : d.add? m = some e ↔
    ∃ p : Placement I, p.meeting = m ∧ d.admits p.course p.slot = true ∧ d.put p.course p.slot = e := by
  simp only [add?, Option.bind_eq_some_iff, Meeting.placement?_eq_some_iff, place?_eq_some_iff]

theorem remove?_eq_some_iff {m : Meeting} : d.remove? m = some e ↔
    ∃ p : Placement I, p.meeting = m ∧ p.slot ∈ d.slotsOf p.course ∧ d.cut p.course p.slot = e := by
  simp only [remove?, Option.bind_eq_some_iff, Meeting.placement?_eq_some_iff, lift?_eq_some_iff]

/-- What was put in can be cut away, and every table is as it was. -/
theorem Represents.cut_put (h : d.Represents P) (hI : I.Coherent) {c : CourseIx I} {s : Slot I}
    (ha : d.admits c s = true) : (d.put c s).cut c s = d := by
  rw [← (h.put hI ha).lifted_eq_cut (Finset.mem_insert_self ..)]
  exact h.lifted_put hI ha

theorem Represents.remove?_of_add? (h : d.Represents P) (hI : I.Coherent) {m : Meeting}
    (hadd : d.add? m = some e) : e.remove? m = some d := by
  obtain ⟨p, rfl, ha, rfl⟩ := add?_eq_some_iff.1 hadd
  refine remove?_eq_some_iff.2 ⟨p, rfl, ?_, h.cut_put hI ha⟩
  exact (h.put hI ha).mem_slotsOf.2 (Finset.mem_insert_self ..)

theorem Represents.add?_of_remove? (h : d.Represents P) (hI : I.Coherent) {m : Meeting}
    (hremove : d.remove? m = some e) : e.add? m = some d := by
  obtain ⟨p, rfl, hp, rfl⟩ := remove?_eq_some_iff.1 hremove
  have hpP := h.mem_slotsOf.1 hp
  have ha : (d.cut p.course p.slot).admits p.course p.slot = true := by
    refine h.admits_cut hI hpP (h.available hpP) ?_
    intro b hb hconf
    by_contra hne
    simp [h.conflict_eq_false hpP hb (Ne.symm hne)] at hconf
  refine add?_eq_some_iff.2 ⟨p, rfl, ha, ?_⟩
  rw [← placed_eq_put ha]
  exact h.placed_cut hI hpP

/-- Two courses that are admitted one after the other are admitted the other way round: a slot that
    has room for the second one besides the first has room for either. -/
theorem Represents.add?_swap (h : d.Represents P) (hI : I.Coherent) {m m' : Meeting}
    (hadd : d.add? m = some e) (hadd' : e.add? m' = some f) :
    ∃ g, d.add? m' = some g ∧ g.add? m = some f := by
  obtain ⟨p, rfl, ha, rfl⟩ := add?_eq_some_iff.1 hadd
  obtain ⟨p', rfl, ha', rfl⟩ := add?_eq_some_iff.1 hadd'
  obtain ⟨hload, hav, hfree⟩ := (h.admits_iff hI).1 ha
  have hp := h.put hI ha
  obtain ⟨hload', hav', hfree'⟩ := (hp.admits_iff hI).1 ha'
  rw [load_insert hfree.notMem] at hload'
  have hfirst : d.admits p'.course p'.slot = true :=
    (h.admits_iff hI).2 ⟨by omega, hav', fun b hb => hfree' b (Finset.mem_insert_of_mem hb)⟩
  have hp' := h.put hI hfirst
  have hnew := ((h.admits_iff hI).1 hfirst).2.2.notMem
  have hsecond : (d.put p'.course p'.slot).admits p.course p.slot = true := by
    refine (hp'.admits_iff hI).2 ⟨?_, hav, ?_⟩
    · rw [load_insert hnew]
      split
      · rename_i hs
        rw [if_pos hs.symm] at hload'
        rwa [← hs]
      · exact hload
    · intro b hb
      rcases Finset.mem_insert.1 hb with he | hb
      · obtain ⟨rfl, hs⟩ := Placement.mk.inj he
        rw [conflict_comm]
        exact hfree' p.course (by rw [← hs]; exact Finset.mem_insert_self ..)
      · exact hfree b hb
  refine ⟨_, add?_eq_some_iff.2 ⟨p', rfl, hfirst, rfl⟩,
    add?_eq_some_iff.2 ⟨p, rfl, hsecond, ?_⟩⟩
  have hboth := (hp'.put hI hsecond).toKeeps
  rw [Finset.insert_comm] at hboth
  exact hboth.unique (hp.put hI ha').toKeeps

theorem Represents.addAll?_of_perm (h : d.Represents P) (hI : I.Coherent) {ms ms' : List Meeting}
    (hok : d.addAll? ms = some e) (hp : ms.Perm ms') : d.addAll? ms' = some e := by
  refine foldlM_eq_some_of_perm (P := fun d => ∃ P, d.Represents P) ?_ ?_ hp ⟨P, h⟩ hok
  · rintro d m e ⟨P, hP⟩ hadd
    obtain ⟨Q, hQ⟩ := hP.exists_add hI m
    exact ⟨Q, by simpa [hadd] using hQ⟩
  · rintro d m m' e f ⟨P, hP⟩ hadd hadd'
    exact hP.add?_swap hI hadd hadd'

/-- The draft shows nothing of how it came about. -/
structure Canonical (d : Draft I) : Prop where
  eq_ofEdits_iff : ∀ es, d = ofEdits es ↔ ∀ p, p ∈ d.placements ↔ p ∈ (ofEdits es).placements
  addAll?_of_perm : ∀ {ms ms' e}, d.addAll? ms = some e → ms.Perm ms' → d.addAll? ms' = some e
  remove?_of_add? : ∀ {m e}, d.add? m = some e → e.remove? m = some d
  add?_of_remove? : ∀ {m e}, d.remove? m = some e → e.add? m = some d

theorem Keeps.eq_iff_placements {Q : Finset (Placement I)} (hd : d.Keeps P) (he : e.Keeps Q) :
    d = e ↔ ∀ p, p ∈ d.placements ↔ p ∈ e.placements := by
  constructor
  · rintro rfl p
    rfl
  · intro hsame
    obtain rfl : P = Q := Finset.ext fun p => by rw [← hd.mem_placements, hsame, he.mem_placements]
    exact hd.unique he

theorem Represents.canonical (h : d.Represents P) (hI : I.Coherent) : d.Canonical where
  eq_ofEdits_iff es := by
    obtain ⟨Q, hQ⟩ := exists_represents hI es
    exact h.toKeeps.eq_iff_placements hQ.toKeeps
  addAll?_of_perm := h.addAll?_of_perm hI
  remove?_of_add? := h.remove?_of_add? hI
  add?_of_remove? := h.add?_of_remove? hI

end Draft

/-- Timetables and drafts that came about by changes show nothing of how. Two of them are equal just
    when they hold the same, meetings that can be added in one order can be added in every order and
    lead to the same, and a meeting that was added and taken away again, or the other way round,
    leaves what there was before. -/
theorem canonical_ofEdits {r : Records} {I : Instance} (h : r.resolve = .ok I) :
    (∀ es, (Timetable.ofEdits es : Timetable I).Canonical) ∧
      ∀ es, (Draft.ofEdits es : Draft I).Canonical := by
  have hI := Records.coherent_of_resolve h
  constructor
  · intro es
    obtain ⟨M, hM⟩ := Timetable.exists_represents hI es
    exact hM.canonical hI
  · intro es
    obtain ⟨P, hP⟩ := Draft.exists_represents hI es
    exact hP.canonical hI

/-- Two histories of one timetable of the pair, and two of one draft. -/
theorem canonical_ofEdits_pair :
    (Timetable.ofEdits [.add ⟨0, 1, 0, 0⟩, .replace ⟨1, 1, 0, 1⟩, .add ⟨0, 0, 0, 0⟩] : Timetable pair) =
      Timetable.ofEdits [.add ⟨0, 0, 0, 0⟩, .add ⟨1, 1, 0, 1⟩, .add ⟨0, 1, 0, 0⟩] ∧
    (Draft.ofEdits [.add ⟨0, 1, 0⟩, .replace ⟨1, 1, 0⟩, .add ⟨0, 0, 0⟩] : Draft pair) =
      Draft.ofEdits [.add ⟨0, 0, 0⟩, .add ⟨1, 1, 0⟩, .add ⟨1, 0, 0⟩] := by
  obtain ⟨htimetables, hdrafts⟩ := canonical_ofEdits Records.resolve_pair
  exact ⟨((htimetables _).eq_ofEdits_iff _).2 fun b => iff_of_eq (congrArg (b ∈ ·) (by decide)),
    ((hdrafts _).eq_ofEdits_iff _).2 fun p => iff_of_eq (congrArg (p ∈ ·) (by decide))⟩

end Timetabling
