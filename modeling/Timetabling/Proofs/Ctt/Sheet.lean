import Mathlib.Logic.Function.Basic
import Timetabling.Proofs.Ctt.Record
import Timetabling.Proofs.Text.Blank

/-! The sheet of a text is what the text says apart from its layout: the lines above the first section
    title, and for every section that has a title its records in the order of the text. It is made line
    by line, whatever the lines say, and holds what the body of the text is read as. `Sheet.Lists` tells
    which records of an instance a sheet lists. -/

namespace Timetabling.Ctt

open Text

/-- The lines of a header, and the records of every section that is there, cut into fields. -/
structure Sheet where
  header : List (List Char)
  sections : Section → Option (List (List (List Char)))

namespace Sheet

/-- The sheet of a text without lines. -/
def blank : Sheet := ⟨[], fun _ => none⟩

/-- The records of a section; a section that is not there has none. -/
def recordsOf (sh : Sheet) (s : Section) : List (List (List Char)) := (sh.sections s).getD []

/-- What the lines of the header declare. -/
def head (sh : Sheet) : Header := .ofFields (sh.header.filterMap field?)

/-- The sheet with one more line of the header. -/
def addField (sh : Sheet) (text : List Char) : Sheet := { sh with header := sh.header ++ [text] }

/-- The sheet with a section that goes on if it was there. -/
def addTitle (sh : Sheet) (s : Section) : Sheet :=
  { sh with sections := Function.update sh.sections s (some (sh.recordsOf s)) }

/-- The sheet with one more record of a section. -/
def addRecord (sh : Sheet) (s : Section) (fields : List (List Char)) : Sheet :=
  { sh with sections := Function.update sh.sections s (some (sh.recordsOf s ++ [fields])) }

/-- The sheet lists these records: its header is made of fields that declare the grid, no section is
    missing but perhaps the room constraints, every number of records that is declared is right, and
    the records of each section stand for those of the list, one by one. -/
structure Lists (sh : Sheet) (r : Records) : Prop where
  fields : ∀ t ∈ sh.header, ∃ f, field? t = some f ∧ f.1.accepts f.2 = true
  name : sh.head.name = r.name
  days : sh.head.days = some r.days
  periods : sh.head.periods = some r.periods
  daily : sh.head.daily.getD ⟨0, 0⟩ = r.daily
  present : ∀ s, s ≠ .roomConstraints → (sh.sections s).isSome = true
  counted : ∀ s n, sh.head.declared s = some n → n = (sh.recordsOf s).length
  courses : List.Forall₂ IsCourse (sh.recordsOf .courses) r.courses
  rooms : List.Forall₂ IsRoom (sh.recordsOf .rooms) r.rooms
  curricula : List.Forall₂ IsCurriculum (sh.recordsOf .curricula) r.curricula
  unavailabilities :
    List.Forall₂ IsUnavailability (sh.recordsOf .unavailabilities) r.unavailabilities
  roomConstraints :
    List.Forall₂ IsRoomConstraint (sh.recordsOf .roomConstraints) r.roomConstraints

end Sheet

/-! ### Making the sheet -/

/-- A sheet in the making, the section that was titled last, and whether the text has ended. -/
structure Scan where
  sheet : Sheet
  current : Option Section
  ended : Bool

namespace Scan

/-- Before the first line. -/
def start : Scan := ⟨.blank, none, false⟩

/-- Takes in a line without the blanks at its ends: the line may end the text, title a section, or
    belong to the header or to the section titled last. -/
def take (x : Scan) (text : List Char) : Scan :=
  if x.ended then x
  else match Body.title? text, x.current with
    | some s, _ => ⟨x.sheet.addTitle s, some s, false⟩
    | none, none => ⟨x.sheet.addField text, none, false⟩
    | none, some s =>
      if text = Body.endMark then { x with ended := true }
      else ⟨x.sheet.addRecord s (words text), some s, false⟩

end Scan

/-- The lines that are not blank, without the blanks at their ends. -/
def content (ls : List (List Char)) : List (List Char) := (ls.map trim).filter fun t => !t.isEmpty

/-- The sheet of a text given by its lines. -/
def Sheet.ofLines (ls : List (List Char)) : Sheet := ((content ls).foldl Scan.take .start).sheet

/-! ### Lines that are not blank -/

theorem content_append (xs ys : List (List Char)) : content (xs ++ ys) = content xs ++ content ys := by
  rw [content, List.map_append, List.filter_append]
  rfl

theorem content_cons_of_blank {l : List Char} (hl : Blank l) (ls : List (List Char)) :
    content (l :: ls) = content ls := by
  simp [content, trim_eq_nil_iff.2 hl]

theorem content_cons {l : List Char} (hl : ¬Blank l) (ls : List (List Char)) :
    content (l :: ls) = trim l :: content ls := by
  simp [content, mt trim_eq_nil_iff.1 hl]

theorem content_eq_map {ls : List (List Char)} (h : ∀ l ∈ ls, ¬Blank l) : content ls = ls.map trim := by
  induction ls with
  | nil => rfl
  | cons l ls ih =>
    obtain ⟨hl, hls⟩ := List.forall_mem_cons.1 h
    rw [content_cons hl, ih hls, List.map_cons]

theorem content_padded {p l q : List Char} (hp : Blank p) (hq : Blank q) (ls : List (List Char)) :
    content ((p ++ (l ++ q)) :: ls) = content (l :: ls) := by
  simp only [content, List.map_cons, hp.trim_append, hq.append_trim]

/-! ### The sections -/

/-- The line with the title of a section. -/
def Section.heading (s : Section) : List Char := s.title.toList ++ [':']

theorem title?_eq_some_iff {text : List Char} {s : Section} :
    Body.title? text = some s ↔ s.heading = text := by
  constructor
  · intro h
    simpa [Section.heading] using List.find?_some h
  · rintro rfl
    cases s <;> decide

theorem title?_heading (s : Section) : Body.title? s.heading = some s := title?_eq_some_iff.2 rfl

theorem title?_endMark : Body.title? Body.endMark = none := by decide

theorem entitled_of_title? {text : List Char} {s : Section} (h : Body.title? text = some s) :
    Entitled text := by
  obtain rfl := title?_eq_some_iff.1 h
  exact ⟨s, [], by cases s <;> decide⟩

theorem not_entitled_endMark : ¬Entitled Body.endMark := by
  rintro ⟨s, rest, h⟩
  exact absurd h (by simp [Body.endMark, cutAt?])

theorem word_heading (s : Section) : Word s.heading := by
  cases s <;> decide

theorem word_endMark : Word Body.endMark := by decide

theorem title?_trim_eq_some_iff {text : List Char} {s : Section} :
    Body.title? (trim text) = some s ↔ words text = [s.heading] := by
  rw [title?_eq_some_iff, words_eq_singleton_iff, and_iff_left (word_heading s), eq_comm]

theorem trim_eq_endMark_iff {text : List Char} :
    trim text = Body.endMark ↔ words text = [Body.endMark] := by
  rw [words_eq_singleton_iff, and_iff_left word_endMark]

namespace Sheet

/-- The sheet with the titles and the records of a body after its own. -/
def extend (sh : Sheet) (b : Body) : Sheet where
  header := sh.header
  sections s :=
    if (sh.sections s).isSome = true ∨ s ∈ b.titles then
      some (sh.recordsOf s ++ (b.recordsOf s).map Record.fields)
    else none

theorem extend_nil (sh : Sheet) : sh.extend ⟨[], []⟩ = sh := by
  obtain ⟨header, sections⟩ := sh
  refine congrArg (Sheet.mk header) (funext fun s => ?_)
  cases h : sections s <;> simp [recordsOf, Body.recordsOf, h]

theorem extend_addTitle (sh : Sheet) (b : Body) (s : Section) :
    (sh.addTitle s).extend b = sh.extend { b with titles := s :: b.titles } := by
  refine congrArg (Sheet.mk sh.header) (funext fun s' => ?_)
  by_cases hs : s' = s
  · subst hs
    simp [addTitle, recordsOf, Body.recordsOf]
  · simp [addTitle, recordsOf, Body.recordsOf, hs]

theorem extend_addRecord {sh : Sheet} {s : Section} (hs : (sh.sections s).isSome = true) (b : Body)
    (l : Line) : (sh.addRecord s (words l.text)).extend b =
      sh.extend { b with records := (s, .ofLine l) :: b.records } := by
  refine congrArg (Sheet.mk sh.header) (funext fun s' => ?_)
  by_cases hs' : s' = s
  · subst hs'
    simp [addRecord, recordsOf, Body.recordsOf, hs, Record.ofLine]
  · simp [addRecord, recordsOf, Body.recordsOf, hs', Ne.symm hs']

end Sheet

namespace Scan

variable {x : Scan} {s : Section} {text : List Char}

theorem foldl_take_of_ended (h : x.ended = true) (ts : List (List Char)) : ts.foldl take x = x := by
  induction ts with
  | nil => rfl
  | cons t ts ih => rw [List.foldl_cons, take, if_pos h, ih]

theorem take_title (h : x.ended = false) (ht : Body.title? text = some s) :
    x.take text = ⟨x.sheet.addTitle s, some s, false⟩ := by
  simp [take, h, ht]

theorem take_field (h : x.ended = false) (hx : x.current = none) (ht : Body.title? text = none) :
    x.take text = ⟨x.sheet.addField text, none, false⟩ := by
  simp [take, h, hx, ht]

theorem take_endMark (h : x.ended = false) (hx : x.current = some s) :
    x.take Body.endMark = ⟨x.sheet, some s, true⟩ := by
  simp [take, h, hx, title?_endMark]

theorem take_record (h : x.ended = false) (hx : x.current = some s)
    (ht : Body.title? text = none) (hend : text ≠ Body.endMark) :
    x.take text = ⟨x.sheet.addRecord s (words text), some s, false⟩ := by
  simp [take, h, hx, ht, hend]

end Scan

/-- Below a section title every text is read, and what is read is added to the sheet. -/
theorem exists_read_some (ls : List Line) (sh : Sheet) {s : Section}
    (hs : (sh.sections s).isSome = true) : ∃ b, Body.read (some s) ls = .ok b ∧
      ((ls.map Line.text).foldl Scan.take ⟨sh, some s, false⟩).sheet = sh.extend b := by
  induction ls generalizing sh s with
  | nil => exact ⟨⟨[], []⟩, rfl, sh.extend_nil.symm⟩
  | cons l ls ih =>
    rw [List.map_cons, List.foldl_cons]
    by_cases hend : l.text = Body.endMark
    · refine ⟨⟨[], []⟩, by simp only [Body.read, if_pos hend], ?_⟩
      rw [hend, Scan.take_endMark rfl rfl, Scan.foldl_take_of_ended rfl, Sheet.extend_nil]
    · cases ht : Body.title? l.text with
      | some s' =>
        obtain ⟨b, hb, hsheet⟩ := ih (sh.addTitle s') (s := s') (by simp [Sheet.addTitle])
        refine ⟨{ b with titles := s' :: b.titles }, ?_, ?_⟩
        · simp only [Body.read, if_neg hend, ht, hb]
          rfl
        · rw [Scan.take_title rfl ht, hsheet, Sheet.extend_addTitle]
      | none =>
        obtain ⟨b, hb, hsheet⟩ :=
          ih (sh.addRecord s (words l.text)) (s := s) (by simp [Sheet.addRecord])
        refine ⟨{ b with records := (s, .ofLine l) :: b.records }, ?_, ?_⟩
        · simp only [Body.read, if_neg hend, ht, hb]
          rfl
        · rw [Scan.take_record rfl rfl ht hend, hsheet, Sheet.extend_addRecord hs]

/-- The lines above the first title make the header. -/
theorem foldl_take_header {ts : List (List Char)} (hts : ∀ t ∈ ts, Body.title? t = none) :
    ts.foldl Scan.take .start = ⟨⟨ts, fun _ => none⟩, none, false⟩ := by
  induction ts using List.reverseRecOn with
  | nil => rfl
  | append_singleton ts t ih =>
    rw [List.foldl_append, ih fun t' ht' => hts t' (List.mem_append_left _ ht'), List.foldl_cons,
      Scan.take_field rfl rfl (hts t (by simp))]
    rfl

/-- The parts of a text, above the first title and from there on, and what its sheet is then. -/
theorem exists_read_none {front rest : List Line} (hfront : ∀ l ∈ front, Body.title? l.text = none)
    (hrest : ∀ l ∈ rest.head?, ∃ s, Body.title? l.text = some s) :
    ∃ b, Body.read none rest = .ok b ∧
      (((front ++ rest).map Line.text).foldl Scan.take .start).sheet =
        Sheet.extend ⟨front.map Line.text, fun _ => none⟩ b := by
  have hheader : ∀ t ∈ front.map Line.text, Body.title? t = none := by simpa using hfront
  rw [List.map_append, List.foldl_append, foldl_take_header hheader]
  cases rest with
  | nil => exact ⟨⟨[], []⟩, rfl, (Sheet.extend_nil _).symm⟩
  | cons l ls =>
    obtain ⟨s, hs⟩ := hrest l rfl
    have hend : l.text ≠ Body.endMark := fun e => by simp [e, title?_endMark] at hs
    obtain ⟨b, hb, hsheet⟩ := exists_read_some ls
      (Sheet.addTitle ⟨front.map Line.text, fun _ => none⟩ s) (s := s) (by simp [Sheet.addTitle])
    refine ⟨{ b with titles := s :: b.titles }, ?_, ?_⟩
    · simp only [Body.read, if_neg hend, hs, hb]
      rfl
    · rw [List.map_cons, List.foldl_cons, Scan.take_title rfl hs, hsheet, Sheet.extend_addTitle]

/-- Every record that is read belongs to the section titled before it. -/
theorem mem_titles_of_read {ls : List Line} {current : Option Section} {b : Body}
    (h : Body.read current ls = .ok b) :
    ∀ r ∈ b.records, current = some r.1 ∨ r.1 ∈ b.titles := by
  induction ls generalizing current b with
  | nil =>
    obtain rfl := Except.ok.inj h
    simp
  | cons l ls ih =>
    by_cases hend : l.text = Body.endMark
    · simp only [Body.read, if_pos hend] at h
      obtain rfl := Except.ok.inj h
      simp
    · cases ht : Body.title? l.text with
      | some s =>
        simp only [Body.read, if_neg hend, ht] at h
        obtain ⟨b', hb', hb⟩ := bind_eq_ok_iff.1 h
        obtain rfl := Except.ok.inj hb
        intro r hr
        right
        rcases ih hb' r hr with hs | hs
        · exact List.mem_cons.2 (.inl (Option.some.inj hs).symm)
        · exact List.mem_cons_of_mem _ hs
      | none =>
        cases current with
        | none => simp [Body.read, hend, ht, Line.fail] at h
        | some s =>
          simp only [Body.read, if_neg hend, ht] at h
          obtain ⟨b', hb', hb⟩ := bind_eq_ok_iff.1 h
          obtain rfl := Except.ok.inj hb
          intro r hr
          rcases List.mem_cons.1 hr with rfl | hr
          · exact .inl rfl
          · exact ih hb' r hr

/-- A section without a title has no records. -/
theorem recordsOf_eq_nil_of_read {ls : List Line} {b : Body} (h : Body.read none ls = .ok b)
    {s : Section} (hs : s ∉ b.titles) : b.recordsOf s = [] := by
  simp only [Body.recordsOf, List.map_eq_nil_iff, List.filter_eq_nil_iff, decide_eq_true_eq]
  rintro r hr rfl
  exact (mem_titles_of_read h r hr).elim (by simp) hs

end Timetabling.Ctt
