import Mathlib.Data.List.TakeWhile
import Timetabling.Proofs.Ctt.Sheet
import Timetabling.Proofs.Instance.Resolution

/-! What is read from a text is what its sheet lists. Main statement: a text is read as an instance just
    when its sheet lists records that resolve to it. -/

namespace Timetabling.Ctt

open Text

/-! ### The records -/

theorem grid_eq_ok_iff {declared : Option Nat} {field : GridField} {n : Nat} :
    Header.grid declared field = .ok n ↔ declared = some n := by
  cases declared <;> simp [Header.grid]

theorem counted_eq_ok_iff {b : Body} {s : Section} {required : Bool} {declared : Option Nat}
    {rs : List Record} : b.counted s required declared = .ok rs ↔
      (required = true → s ∈ b.titles) ∧ (∀ n, declared = some n → n = (b.recordsOf s).length) ∧
        b.recordsOf s = rs := by
  unfold Body.counted
  split
  · rename_i h
    simp only [Bool.and_eq_true, Bool.not_eq_true', List.contains_eq_mem, decide_eq_false_iff_not] at h
    simp [h.1, h.2]
  · rename_i h
    have hpresent : required = true → s ∈ b.titles := by simpa using h
    rw [and_iff_right hpresent]
    cases declared with
    | none => simp
    | some n => by_cases hn : n = (b.recordsOf s).length <;> simp [hn]

theorem forall₂_and_right {α β : Type} {R : α → β → Prop} {p : β → Prop} {xs : List α}
    {ys : List β} : List.Forall₂ (fun x y => R x y ∧ p y) xs ys ↔
      List.Forall₂ R xs ys ∧ ∀ y ∈ ys, p y := by
  constructor
  · intro h
    induction h with
    | nil => exact ⟨.nil, by simp⟩
    | cons hxy _ ih => exact ⟨.cons hxy.1 ih.1, List.forall_mem_cons.2 ⟨hxy.2, ih.2⟩⟩
  · rintro ⟨h, hp⟩
    induction h with
    | nil => exact .nil
    | cons hxy _ ih =>
      obtain ⟨hy, hys⟩ := List.forall_mem_cons.1 hp
      exact .cons ⟨hxy, hy⟩ (ih hys)

/-- Every identifier that the records mention is declared. -/
structure Known (r : Records) : Prop where
  members : ∀ q ∈ r.curricula, ∀ m ∈ q.members, r.hasCourse m = true
  unavailability : ∀ u ∈ r.unavailabilities, r.hasCourse u.course = true
  roomConstraint : ∀ k ∈ r.roomConstraints, r.hasCourse k.course = true ∧ r.hasRoom k.room = true

namespace Sheet

variable {ts : List (List Char)} {b : Body} {s : Section}

theorem sections_extend_header : (extend ⟨ts, fun _ => none⟩ b).sections s =
    if s ∈ b.titles then some ((b.recordsOf s).map Record.fields) else none := by
  simp [extend, recordsOf]

theorem recordsOf_extend_header (hb : ∀ s, s ∉ b.titles → b.recordsOf s = []) :
    (extend ⟨ts, fun _ => none⟩ b).recordsOf s = (b.recordsOf s).map Record.fields := by
  by_cases hs : s ∈ b.titles
  · simp [recordsOf, sections_extend_header, hs]
  · simp [recordsOf, sections_extend_header, hs, hb s hs]

end Sheet

/-- Records are made of a header and a body just when these list them and mention nothing unknown. -/
theorem recordsOf_eq_ok_iff {ts : List (List Char)} {b : Body} {r : Records}
    (hb : ∀ s, s ∉ b.titles → b.recordsOf s = [])
    (hts : ∀ t ∈ ts, ∃ f, field? t = some f ∧ f.1.accepts f.2 = true) :
    recordsOf (.ofFields (ts.filterMap field?)) b = .ok r ↔
      (Sheet.extend ⟨ts, fun _ => none⟩ b).Lists r ∧ Known r := by
  have hrecords : ∀ s, (Sheet.extend ⟨ts, fun _ => none⟩ b).recordsOf s =
      (b.recordsOf s).map Record.fields := fun _ => Sheet.recordsOf_extend_header hb
  simp only [recordsOf, bind_eq_ok_iff, grid_eq_ok_iff, counted_eq_ok_iff, mapM_eq_ok_iff,
    Record.course_eq_ok_iff, Record.room_eq_ok_iff, Record.curriculum_eq_ok_iff,
    Record.unavailability_eq_ok_iff, Record.roomConstraint_eq_ok_iff, forall₂_and_right, pure,
    Except.pure, Except.ok.injEq]
  constructor
  · rintro ⟨days, hdays, periods, hperiods, _, ⟨hc, hnc, rfl⟩, cs, hcs, _, ⟨hx, hnx, rfl⟩, xs, hxs,
      _, ⟨hq, hnq, rfl⟩, qs, ⟨hqs, hmembers⟩, _, ⟨hu, hnu, rfl⟩, us, ⟨hus, hcourse⟩, _, ⟨-, hnk, rfl⟩,
      ks, ⟨hks, hroom⟩, rfl⟩
    refine ⟨⟨hts, rfl, hdays, hperiods, rfl, ?_, ?_, ?_, ?_, ?_, ?_, ?_⟩, hmembers, hcourse, hroom⟩
    · intro s hs
      have hs' : s ∈ b.titles := by
        cases s with
        | courses => exact hc trivial
        | rooms => exact hx trivial
        | curricula => exact hq trivial
        | unavailabilities => exact hu trivial
        | roomConstraints => exact absurd rfl hs
      simp [Sheet.sections_extend_header, hs']
    · intro s n hn
      rw [hrecords, List.length_map]
      cases s with
      | courses => exact hnc n hn
      | rooms => exact hnx n hn
      | curricula => exact hnq n hn
      | unavailabilities => exact hnu n hn
      | roomConstraints => exact hnk n hn
    all_goals rw [hrecords, List.forall₂_map_left_iff]
    · exact hcs
    · exact hxs
    · exact hqs
    · exact hus
    · exact hks
  · rintro ⟨h, hknown⟩
    have hpresent : ∀ s, s ≠ .roomConstraints → s ∈ b.titles := by
      intro s hs
      simpa [Sheet.sections_extend_header] using h.present s hs
    have hcounted : ∀ s n, (Sheet.extend ⟨ts, fun _ => none⟩ b).head.declared s = some n →
        n = (b.recordsOf s).length := by
      intro s n hn
      rw [h.counted s n hn, hrecords, List.length_map]
    have hrequired : ((Header.ofFields (ts.filterMap field?)).roomConstraints.any (0 < ·)) = true →
        Section.roomConstraints ∈ b.titles := by
      -- without its title the section has no records, and the header declares none
      intro hany
      obtain ⟨n, hn, hpos⟩ := (Option.any_eq_true ..).1 hany
      by_contra hnot
      have hzero := hcounted .roomConstraints n hn
      rw [hb _ hnot, List.length_nil] at hzero
      simp [hzero] at hpos
    have hcs := h.courses
    have hxs := h.rooms
    have hqs := h.curricula
    have hus := h.unavailabilities
    have hks := h.roomConstraints
    rw [hrecords, List.forall₂_map_left_iff] at hcs hxs hqs hus hks
    refine ⟨r.days, h.days, r.periods, h.periods,
      _, ⟨fun _ => hpresent .courses (by decide), hcounted .courses, rfl⟩, r.courses, hcs,
      _, ⟨fun _ => hpresent .rooms (by decide), hcounted .rooms, rfl⟩, r.rooms, hxs,
      _, ⟨fun _ => hpresent .curricula (by decide), hcounted .curricula, rfl⟩, r.curricula,
      ⟨hqs, hknown.members⟩,
      _, ⟨fun _ => hpresent .unavailabilities (by decide), hcounted .unavailabilities, rfl⟩,
      r.unavailabilities, ⟨hus, hknown.unavailability⟩,
      _, ⟨hrequired, hcounted .roomConstraints, rfl⟩, r.roomConstraints,
      ⟨hks, hknown.roomConstraint⟩, ?_⟩
    have hname : (Header.ofFields (ts.filterMap field?)).name = r.name := h.name
    have hdaily : (Header.ofFields (ts.filterMap field?)).daily.getD ⟨0, 0⟩ = r.daily := h.daily
    rw [hname, hdaily]

theorem known_of_resolve {r : Records} {I : Instance} (h : r.resolve = .ok I) : Known r := by
  have hr := Records.valid_of_resolve h
  exact ⟨hr.members, fun u hu => (hr.unavailability u hu).1, hr.roomConstraint⟩

/-! ### Reading a text -/

theorem map_text_ofText (text : List Char) :
    (Line.ofText text).map Line.text = content (lines text) := by
  have hfst : ((lines text).zipIdx 1).map (fun l => trim l.1) = (lines text).map trim := by
    conv_rhs => rw [← List.zipIdx_map_fst 1 (lines text), List.map_map]
    rfl
  rw [Line.ofText, content, ← hfst, List.filter_map, List.filter_map, List.map_map]
  rfl

/-- A line of the header titles no section. -/
theorem title?_eq_none_of_field? {text : List Char} {f : Key × List Char}
    (h : field? text = some f) : Body.title? text = none := by
  cases ht : Body.title? text with
  | none => rfl
  | some s => exact absurd (entitled_of_title? ht) (not_entitled_of_field? h)

/-- The first line that the body is read from titles a section. -/
theorem exists_title_of_read {rest : List Line} {b : Body} (hb : Body.read none rest = .ok b)
    (hrest : ∀ l ∈ rest.head?, Entitled l.text) :
    ∀ l ∈ rest.head?, ∃ s, Body.title? l.text = some s := by
  cases rest with
  | nil => simp
  | cons l ls =>
    rw [List.head?_cons]
    rintro _ ⟨⟩
    cases ht : Body.title? l.text with
    | some s => exact ⟨s, rfl⟩
    | none =>
      have hend : l.text ≠ Body.endMark := fun e => not_entitled_endMark (e ▸ hrest l rfl)
      simp [Body.read, hend, ht, Line.fail] at hb

/-- The header and the body that a text falls into. -/
def Parts (text : List Char) (h : Header) (b : Body) : Prop :=
  ∃ rest, ({} : Header).read (Line.ofText text) = .ok (h, rest) ∧ Body.read none rest = .ok b

/-- What the parts of a text hold is what its sheet holds. -/
theorem Parts.exists_sheet {text : List Char} {h : Header} {b : Body} (hparts : Parts text h b) :
    ∃ ts, Sheet.ofLines (lines text) = Sheet.extend ⟨ts, fun _ => none⟩ b ∧
      (∀ t ∈ ts, ∃ f, field? t = some f ∧ f.1.accepts f.2 = true) ∧
      h = .ofFields (ts.filterMap field?) ∧ ∀ s, s ∉ b.titles → b.recordsOf s = [] := by
  obtain ⟨rest, hheader, hb⟩ := hparts
  obtain ⟨front, fields, hlines, hfields, rfl, hrest⟩ := Header.exists_fields_of_read hheader
  obtain ⟨hgiven, rfl⟩ := forall₂_gives_iff.1 hfields
  have hfront : ∀ l ∈ front, Body.title? l.text = none := by
    intro l hl
    obtain ⟨f, hf, -⟩ := hgiven _ (List.mem_map_of_mem hl)
    exact title?_eq_none_of_field? hf
  obtain ⟨b', hb', hsheet⟩ := exists_read_none hfront (exists_title_of_read hb hrest)
  obtain rfl := Except.ok.inj (hb'.symm.trans hb)
  refine ⟨_, ?_, hgiven, Header.foldl_set _, fun _ => recordsOf_eq_nil_of_read hb'⟩
  rw [Sheet.ofLines, ← map_text_ofText, hlines, hsheet]

section

variable {text : List Char} {h : Header} {b : Body}

theorem Parts.recordsOf_sheet (hparts : Parts text h b) (s : Section) :
    (Sheet.ofLines (lines text)).recordsOf s = (b.recordsOf s).map Record.fields := by
  obtain ⟨ts, hsheet, -, -, hb⟩ := hparts.exists_sheet
  rw [hsheet, Sheet.recordsOf_extend_header hb]

theorem Parts.head_sheet (hparts : Parts text h b) : (Sheet.ofLines (lines text)).head = h := by
  obtain ⟨ts, hsheet, -, rfl, -⟩ := hparts.exists_sheet
  rw [hsheet]
  rfl

theorem Parts.sections_sheet_eq_none_iff (hparts : Parts text h b) {s : Section} :
    (Sheet.ofLines (lines text)).sections s = none ↔ s ∉ b.titles := by
  obtain ⟨ts, hsheet, -⟩ := hparts.exists_sheet
  simp [hsheet, Sheet.sections_extend_header]

end

/-- A text whose sheet lists records falls into a header and a body. -/
theorem exists_parts_of_lists {text : List Char} {r : Records}
    (hr : (Sheet.ofLines (lines text)).Lists r) : ∃ h b, Parts text h b := by
  rw [Sheet.ofLines, ← map_text_ofText] at hr
  -- the header goes as far as the lines that are no titles
  let front := (Line.ofText text).takeWhile fun l => (Body.title? l.text).isNone
  let rest := (Line.ofText text).dropWhile fun l => (Body.title? l.text).isNone
  have hlines : Line.ofText text = front ++ rest := (List.takeWhile_append_dropWhile ..).symm
  have hfront : ∀ l ∈ front, Body.title? l.text = none := by
    intro l hl
    simpa using List.mem_takeWhile_imp hl
  have hrest : ∀ l ∈ rest.head?, ∃ s, Body.title? l.text = some s := by
    intro l hl
    have hhead := List.head?_dropWhile_not (fun l => (Body.title? l.text).isNone) (Line.ofText text)
    rw [Option.mem_def.1 hl] at hhead
    simpa [Option.isSome_iff_exists] using hhead
  obtain ⟨b, hb, hsheet⟩ := exists_read_none hfront hrest
  rw [hlines, hsheet] at hr
  have hfields := forall₂_gives_iff.2 ⟨hr.fields, rfl⟩
  have hentitled : ∀ l ∈ rest.head?, Entitled l.text := by
    intro l hl
    obtain ⟨s, hs⟩ := hrest l hl
    exact entitled_of_title? hs
  exact ⟨_, b, rest, hlines ▸ Header.read_append hfields hentitled, hb⟩

theorem Parts.readRecords_eq {text : List Char} {h : Header} {b : Body} (hparts : Parts text h b) :
    readRecords text = recordsOf h b := by
  obtain ⟨rest, hheader, hb⟩ := hparts
  rw [readRecords, hheader]
  simp only [bind, Except.bind, hb]

/-- What is read from the text is what its sheet lists, as long as it mentions nothing unknown. -/
theorem readRecords_eq_ok_iff {text : List Char} {r : Records} :
    readRecords text = .ok r ↔ (Sheet.ofLines (lines text)).Lists r ∧ Known r := by
  have hiff : ∀ {h b}, Parts text h b →
      (readRecords text = .ok r ↔ (Sheet.ofLines (lines text)).Lists r ∧ Known r) := by
    intro h b hparts
    obtain ⟨ts, hsheet, hgiven, rfl, hb⟩ := hparts.exists_sheet
    rw [hparts.readRecords_eq, hsheet, recordsOf_eq_ok_iff hb hgiven]
  constructor
  · intro hr
    obtain ⟨⟨h, rest⟩, hheader, hr'⟩ := bind_eq_ok_iff.1 hr
    obtain ⟨b, hb, -⟩ := bind_eq_ok_iff.1 hr'
    exact (hiff ⟨rest, hheader, hb⟩).1 hr
  · intro hr
    obtain ⟨h, b, hparts⟩ := exists_parts_of_lists hr.1
    exact (hiff hparts).2 hr

/-- A text is read as an instance just when its sheet lists records that resolve to it. -/
theorem read_eq_ok_iff {text : List Char} {I : Instance} : read text = .ok I ↔
    ∃ r, (Sheet.ofLines (lines text)).Lists r ∧ r.resolve = .ok I := by
  have hmapError : ∀ r : Records,
      r.resolve.mapError ReadError.defective = .ok I ↔ r.resolve = .ok I := by
    intro r
    cases r.resolve <;> simp [Except.mapError]
  simp only [read, bind_eq_ok_iff, hmapError, readRecords_eq_ok_iff]
  constructor
  · rintro ⟨r, ⟨hr, -⟩, hI⟩
    exact ⟨r, hr, hI⟩
  · rintro ⟨r, hr, hI⟩
    exact ⟨r, ⟨hr, known_of_resolve hI⟩, hI⟩

end Timetabling.Ctt
