import Timetabling.Proofs.Ctt.Printer
import Timetabling.Proofs.Instance.Coherence
import Timetabling.Proofs.Instance.Numbering

/-! Which records can be written, and what the text that is written has for an outline and a sheet. Main
    statement: what is written is read back, as the instance that the records resolve to. -/

namespace Timetabling.Ctt

open Text

/-! ### What can be written -/

/-- The numbers of a course fit their fields, and its names are words. -/
structure WritableCourse (c : Course) : Prop where
  id : Word c.id.toList
  teacher : Word c.teacher.toList
  lectures : c.lectures < UInt64.size
  minWorkingDays : c.minWorkingDays < UInt64.size
  students : c.students < UInt32.size

/-- The numbers of a room fit their fields, and its identifier is a word. -/
structure WritableRoom (x : Room) : Prop where
  id : Word x.id.toList
  capacity : x.capacity < UInt32.size
  site : x.site < UInt32.size

/-- The records can be written: every number fits its field, every identifier that is declared is a
    word, and the name is kept by a line of the header. -/
structure Writable (r : Records) : Prop where
  name_trim : trim r.name.toList = r.name.toList
  name_line : '\n' ∉ r.name.toList
  days : r.days < UInt64.size
  periods : r.periods < UInt64.size
  least : r.daily.least < UInt64.size
  greatest : r.daily.greatest < UInt64.size
  course : ∀ c ∈ r.courses, WritableCourse c
  room : ∀ x ∈ r.rooms, WritableRoom x
  curriculum : ∀ q ∈ r.curricula, Word q.id.toList ∧ q.members.length < UInt64.size
  length_courses : r.courses.length < UInt64.size
  length_rooms : r.rooms.length < UInt64.size
  length_curricula : r.curricula.length < UInt64.size
  length_unavailabilities : r.unavailabilities.length < UInt64.size
  length_roomConstraints : r.roomConstraints.length < UInt64.size

/-- The classic dialect says all about the records. -/
structure Classic (r : Records) : Prop where
  single : ∀ c ∈ r.courses, c.doubleLectures = false
  site : ∀ x ∈ r.rooms, x.site = 0
  daily : r.daily = ⟨0, 0⟩
  roomConstraints : r.roomConstraints = []

/-- The dialect says all about the records. -/
def Dialect.Suits : Dialect → Records → Prop
  | classic, r => Classic r
  | extended, _ => True

variable {d : Dialect} {r : Records}

theorem word_of_hasCourse (hw : Writable r) {id : String} (h : r.hasCourse id = true) :
    Word id.toList := by
  obtain ⟨c, hc, hid⟩ := List.any_eq_true.1 h
  exact of_decide_eq_true hid ▸ (hw.course c hc).id

theorem word_of_hasRoom (hw : Writable r) {id : String} (h : r.hasRoom id = true) :
    Word id.toList := by
  obtain ⟨x, hx, hid⟩ := List.any_eq_true.1 h
  exact of_decide_eq_true hid ▸ (hw.room x hx).id

theorem isCourse_courseWords {c : Course} (hc : WritableCourse c)
    (hd : d = .classic → c.doubleLectures = false) : IsCourse (d.courseWords c) c.unnumbered := by
  obtain ⟨id, teacher, lectures, days, students, double, _, _⟩ := c
  have hl := unsigned?_numeral hc.lectures
  have hm := unsigned?_numeral hc.minWorkingDays
  have hs := unsigned?_numeral hc.students
  cases d with
  | classic =>
    obtain rfl : double = false := hd rfl
    have h := @IsCourse.plain id.toList teacher.toList _ _ _ _ _ _ hl hm hs
    rwa [String.ofList_toList, String.ofList_toList] at h
  | extended =>
    have hf := unsigned?_numeral (show double.toNat < UInt8.size by cases double <;> decide)
    have h := @IsCourse.flagged id.toList teacher.toList _ _ _ _ _ _ _ _ hl hm hs hf
    rw [String.ofList_toList, String.ofList_toList] at h
    cases double <;> exact h

theorem isRoom_roomWords {x : Room} (hx : WritableRoom x) (hd : d = .classic → x.site = 0) :
    IsRoom (d.roomWords x) x := by
  obtain ⟨id, capacity, site⟩ := x
  have hc := unsigned?_numeral hx.capacity
  cases d with
  | classic =>
    obtain rfl : site = 0 := hd rfl
    have h := @IsRoom.plain id.toList _ _ hc
    rwa [String.ofList_toList] at h
  | extended =>
    have h := @IsRoom.sited id.toList _ _ _ _ hc (unsigned?_numeral hx.site)
    rwa [String.ofList_toList] at h

theorem isCurriculum_curriculumWords {q : CurriculumRecord} (hq : q.members.length < UInt64.size) :
    IsCurriculum (curriculumWords q) q := by
  have hn : unsigned? UInt64.size (numeral q.members.length) =
      some (q.members.map String.toList).length := by
    rw [List.length_map, unsigned?_numeral hq]
  have h := @IsCurriculum.intro q.id.toList _ _ hn
  have hmembers : (q.members.map String.toList).map String.ofList = q.members := by
    simp [Function.comp_def]
  rwa [String.ofList_toList, hmembers] at h

theorem isUnavailability_unavailabilityWords {u : Unavailability} (hd : u.day < UInt64.size)
    (hp : u.period < UInt64.size) : IsUnavailability (unavailabilityWords u) u := by
  have h := @IsUnavailability.intro u.course.toList _ _ _ _ (unsigned?_numeral hd)
    (unsigned?_numeral hp)
  rwa [String.ofList_toList] at h

theorem isRoomConstraint_roomConstraintWords (k : RoomConstraint) :
    IsRoomConstraint (roomConstraintWords k) k := by
  have h := @IsRoomConstraint.intro k.course.toList k.room.toList
  rwa [String.ofList_toList, String.ofList_toList] at h

theorem isRecord_courseWords {c : Course} (hc : WritableCourse c) : IsRecord (d.courseWords c) := by
  cases d <;> exact ⟨by simp [Dialect.courseWords, hc.id, hc.teacher, word_numeral], by
    simp [Dialect.courseWords]⟩

theorem isRecord_roomWords {x : Room} (hx : WritableRoom x) : IsRecord (d.roomWords x) := by
  cases d <;> exact ⟨by simp [Dialect.roomWords, hx.id, word_numeral], by
    simp [Dialect.roomWords]⟩

/-- Every record that is written has at least two words. -/
theorem isRecord_of_mem_wordsOf (hr : r.defects = []) (hw : Writable r) (s : Section) :
    ∀ ws ∈ d.wordsOf r s, IsRecord ws := by
  have hvalid := Records.defects_eq_nil_iff.1 hr
  cases s <;> simp only [Dialect.wordsOf, List.forall_mem_map]
  case courses => exact fun c hc => isRecord_courseWords (hw.course c hc)
  case rooms => exact fun x hx => isRecord_roomWords (hw.room x hx)
  case curricula =>
    intro q hq
    have hmembers : ∀ m ∈ q.members, Word m.toList := fun m hm =>
      word_of_hasCourse hw (hvalid.members q hq m hm)
    exact ⟨by simpa [curriculumWords, (hw.curriculum q hq).1, word_numeral] using hmembers, by
      simp [curriculumWords]⟩
  case unavailabilities =>
    intro u hu
    have hcourse := word_of_hasCourse hw (hvalid.unavailability u hu).1
    exact ⟨by simp [unavailabilityWords, hcourse, word_numeral], by simp [unavailabilityWords]⟩
  case roomConstraints =>
    intro k hk
    have hcourse := word_of_hasCourse hw (hvalid.roomConstraint k hk).1
    have hroom := word_of_hasRoom hw (hvalid.roomConstraint k hk).2
    exact ⟨by simp [roomConstraintWords, hcourse, hroom], by simp [roomConstraintWords]⟩

/-! ### The sheet of what is written -/

theorem count?_trim_numeral {n : Nat} (h : n < UInt64.size) : count? (trim (numeral n)) = some n := by
  rw [(word_numeral n).trim_eq, count?, unsigned?_numeral h]

theorem bounds?_trim_unwords {a b : Nat} (ha : a < UInt64.size) (hb : b < UInt64.size) :
    bounds? (trim (unwords [numeral a, numeral b])) = some ⟨a, b⟩ := by
  have hwords : words (unwords [numeral a, numeral b]) = [numeral a, numeral b] :=
    words_unwords (by simp [word_numeral])
  simp [bounds?, words_trim, hwords, count?, unsigned?_numeral ha, unsigned?_numeral hb]

/-- The line gives an accepted value to a field, and is one line. -/
structure IsField (f : String × List Char) : Prop where
  accepted : ∃ k, Key.ofWord? f.1 = some k ∧ k.accepts (trim f.2) = true
  one_line : '\n' ∉ f.2

theorem isField_count {word : String} {k : Key} (hk : Key.ofWord? word = some k) (hne : k ≠ .daily)
    {n : Nat} (h : n < UInt64.size) : IsField (word, numeral n) := by
  refine ⟨⟨k, hk, ?_⟩, (word_numeral n).not_mem (by decide)⟩
  cases k <;> simp_all [Key.accepts, count?_trim_numeral]

theorem isField_of_mem_fields (hw : Writable r) : ∀ f ∈ d.fields r, IsField f := by
  have hname : IsField ("Name", r.name.toList) := ⟨⟨.name, rfl, rfl⟩, hw.name_line⟩
  have hdaily : IsField ("Min_Max_Daily_Lectures",
      unwords [numeral r.daily.least, numeral r.daily.greatest]) := by
    refine ⟨⟨.daily, rfl, ?_⟩, not_mem_unwords (by simp [word_numeral]) (by decide) (by decide)⟩
    rw [Key.accepts, bounds?_trim_unwords hw.least hw.greatest, Option.isSome_some]
  cases d <;> simp only [Dialect.fields, List.cons_append, List.nil_append, List.forall_mem_cons,
    List.not_mem_nil, false_implies, implies_true, and_true]
  · exact ⟨hname, isField_count rfl (by decide) hw.length_courses,
      isField_count rfl (by decide) hw.length_rooms, isField_count rfl (by decide) hw.days,
      isField_count rfl (by decide) hw.periods, isField_count rfl (by decide) hw.length_curricula,
      isField_count rfl (by decide) hw.length_unavailabilities⟩
  · exact ⟨hname, isField_count rfl (by decide) hw.length_courses,
      isField_count rfl (by decide) hw.length_rooms, isField_count rfl (by decide) hw.days,
      isField_count rfl (by decide) hw.periods, isField_count rfl (by decide) hw.length_curricula,
      hdaily, isField_count rfl (by decide) hw.length_unavailabilities,
      isField_count rfl (by decide) hw.length_roomConstraints⟩

/-- No line that is written has a line break in it, so the lines are found again. -/
theorem lines_print (hr : r.defects = []) (hw : Writable r) : lines (d.print r) =
    (d.fields r).map fieldLine ++
      [] :: (d.parts.flatMap (fun s => sectionLines s (d.wordsOf r s)) ++ [[], Body.endMark]) := by
  have hfields : ∀ l ∈ (d.fields r).map fieldLine, '\n' ∉ l := by
    simp only [List.forall_mem_map]
    intro f hf
    obtain ⟨⟨k, hk, -⟩, hline⟩ := isField_of_mem_fields hw f hf
    have hword := (word_of_ofWord? hk).1.not_mem (show isBlank '\n' = true by decide)
    simp [fieldLine, hword, hline]
  have hsections : ∀ l ∈ d.parts.flatMap (fun s => sectionLines s (d.wordsOf r s)), '\n' ∉ l := by
    simp only [List.mem_flatMap]
    rintro l ⟨s, -, hl⟩
    rcases List.mem_cons.1 hl with rfl | hl
    · exact (word_heading s).not_mem (by decide)
    · obtain ⟨ws, hws, rfl⟩ := List.mem_map.1 hl
      exact not_mem_unwords (isRecord_of_mem_wordsOf hr hw s ws hws).word (by decide) (by decide)
  refine List.splitOn_intercalate '\n' ?_ (by simp)
  intro l hl
  rcases List.mem_append.1 hl with hl | hl
  · exact hfields l hl
  rcases List.mem_cons.1 hl with rfl | hl
  · exact List.not_mem_nil
  rcases List.mem_append.1 hl with hl | hl
  · exact hsections l hl
  · have hend : ∀ l ∈ [[], Body.endMark], '\n' ∉ l := by decide
    exact hend l hl

theorem parts_ne_nil (d : Dialect) : d.parts ≠ [] := by
  cases d <;> simp [Dialect.parts, Section.all]

/-- The outline of what is written has the fields as its header and the sections as its blocks. -/
theorem exists_outline_print (hr : r.defects = []) (hw : Writable r) : ∃ o : Outline,
    o.Of (d.print r) ∧ o.header = ((d.fields r).map fieldLine).map trim ∧
      o.blocks.map (fun b => (b.part, b.body.map words)) = d.parts.map fun s => (s, d.wordsOf r s) := by
  obtain ⟨bs, hlines, hbs⟩ := exists_blocks_of_sections d.parts (isRecord_of_mem_wordsOf hr hw)
  have hne : bs ≠ [] := by
    rintro rfl
    exact parts_ne_nil d (by simpa using hbs.symm)
  have hblank : Blank [] := by simp [Blank]
  have hend : content [[], Body.endMark] = [Body.endMark] := by decide
  have hfields : content ((d.fields r).map fieldLine) = ((d.fields r).map fieldLine).map trim := by
    refine content_eq_map ?_
    simp only [List.forall_mem_map]
    intro f hf hblank
    have hcolon := hblank ':' (by simp [fieldLine])
    exact absurd hcolon (by decide)
  refine ⟨⟨((d.fields r).map fieldLine).map trim, bs⟩, ⟨?_, .inr ⟨hne, [], ?_⟩⟩, rfl, hbs⟩
  · simp only [List.forall_mem_map]
    intro f hf
    obtain ⟨⟨k, hk, -⟩, -⟩ := isField_of_mem_fields hw f hf
    exact title?_eq_none_of_field? (field?_trim_fieldLine hk)
  · rw [lines_print hr hw, content_append, content_cons_of_blank hblank, content_append, hlines, hend,
      hfields, Outline.lines, List.append_assoc]

/-- The header that is read from what is written. -/
def Dialect.head : Dialect → Records → Header
  | classic, r =>
    { name := r.name
      courses := some r.courses.length
      rooms := some r.rooms.length
      days := some r.days
      periods := some r.periods
      curricula := some r.curricula.length
      unavailabilities := some r.unavailabilities.length }
  | extended, r =>
    { name := r.name
      courses := some r.courses.length
      rooms := some r.rooms.length
      days := some r.days
      periods := some r.periods
      curricula := some r.curricula.length
      daily := some r.daily
      unavailabilities := some r.unavailabilities.length
      roomConstraints := some r.roomConstraints.length }

theorem head_print (hw : Writable r) :
    Header.ofFields ((((d.fields r).map fieldLine).map trim).filterMap field?) = d.head r := by
  have hfields : (((d.fields r).map fieldLine).map trim).filterMap field? =
      (d.fields r).filterMap fun f => (Key.ofWord? f.1).map fun k => (k, trim f.2) := by
    rw [List.filterMap_map, List.filterMap_map]
    refine List.filterMap_congr ?_
    intro f hf
    obtain ⟨⟨k, hk, -⟩, -⟩ := isField_of_mem_fields hw f hf
    simp [field?_trim_fieldLine hk, hk]
  have hname : String.ofList (trim r.name.toList) = r.name := by
    rw [hw.name_trim, String.ofList_toList]
  have hcourses := count?_trim_numeral hw.length_courses
  have hrooms := count?_trim_numeral hw.length_rooms
  have hdays := count?_trim_numeral hw.days
  have hperiods := count?_trim_numeral hw.periods
  have hcurricula := count?_trim_numeral hw.length_curricula
  have hdaily := bounds?_trim_unwords hw.least hw.greatest
  have hunavailabilities := count?_trim_numeral hw.length_unavailabilities
  have hconstraints := count?_trim_numeral hw.length_roomConstraints
  rw [hfields]
  cases d <;> simp [Dialect.fields, Dialect.head, Key.ofWord?, Key.words, Header.ofFields,
    lastValue?, hname, hcourses, hrooms, hdays, hperiods, hcurricula, hdaily,
    hunavailabilities, hconstraints]

theorem length_wordsOf_of_declared {s : Section} {n : Nat} (h : (d.head r).declared s = some n) :
    n = (d.wordsOf r s).length := by
  cases d <;> cases s <;>
    simp_all [Dialect.head, Header.declared, Dialect.wordsOf, eq_comm]

theorem Dialect.Suits.classic (hd : d.Suits r) (h : d = .classic) : Classic r := by
  subst h
  exact hd

/-- A section that is not written has no records. -/
theorem wordsOf_eq_nil (hd : d.Suits r) {s : Section} (hs : s ∉ d.parts) : d.wordsOf r s = [] := by
  cases d with
  | extended => cases s <;> simp [Dialect.parts, Section.all] at hs
  | classic =>
    cases s <;> simp [Dialect.parts] at hs
    simp [Dialect.wordsOf, (hd.classic rfl).roomConstraints]

section

variable {o : Outline} (hblocks : o.blocks.map (fun b => (b.part, b.body.map words)) =
  d.parts.map fun s => (s, d.wordsOf r s))

include hblocks

theorem recordsOf_sheet_of_blocks (hd : d.Suits r) (s : Section) :
    o.sheet.recordsOf s = d.wordsOf r s := by
  have hfilter : o.recordsOf s = (d.parts.filter (· = s)).flatMap (d.wordsOf r) := by
    have h := congrArg (fun bs => (bs.filter fun b => b.1 = s).flatMap Prod.snd) hblocks
    simpa [List.filter_map, List.flatMap_map, Function.comp_def, Outline.recordsOf] using h
  have hnodup : d.parts.Nodup := by cases d <;> decide
  rw [Outline.recordsOf_sheet, hfilter, List.filter_eq]
  by_cases hs : s ∈ d.parts
  · rw [List.count_eq_one_of_mem hnodup hs, List.replicate_one, List.flatMap_singleton]
  · rw [List.count_eq_zero.2 hs, List.replicate_zero, List.flatMap_nil, wordsOf_eq_nil hd hs]

theorem isSome_sections_of_blocks {s : Section} (hs : s ≠ .roomConstraints) :
    (o.sheet.sections s).isSome = true := by
  have hparts : o.blocks.map Block.part = d.parts := by
    have h := congrArg (List.map Prod.fst) hblocks
    simpa [Function.comp_def] using h
  have hmem : s ∈ d.parts := by
    cases d <;> cases s <;> simp [Dialect.parts, Section.all] at hs ⊢
  simp [Outline.sheet, hparts, hmem]

/-- The sheet of what is written lists the records. -/
theorem lists_of_blocks (hr : r.defects = []) (hw : Writable r) (hd : d.Suits r)
    (hheader : o.header = ((d.fields r).map fieldLine).map trim) : o.sheet.Lists r.unnumbered := by
  have hsound := (Records.defects_eq_nil_iff.1 hr).toSound
  have hhead : o.sheet.head = d.head r := by
    rw [← head_print hw, ← hheader]
    rfl
  constructor
  case fields =>
    rw [show o.sheet.header = _ from hheader]
    simp only [List.forall_mem_map]
    intro f hf
    obtain ⟨⟨k, hk, haccepts⟩, -⟩ := isField_of_mem_fields hw f hf
    exact ⟨_, field?_trim_fieldLine hk, haccepts⟩
  case name => rw [hhead]; cases d <;> rfl
  case days => rw [hhead]; cases d <;> rfl
  case periods => rw [hhead]; cases d <;> rfl
  case daily =>
    rw [hhead]
    cases d with
    | classic => exact (hd.classic rfl).daily.symm
    | extended => rfl
  case present => exact fun s hs => isSome_sections_of_blocks hblocks hs
  case counted =>
    intro s n hn
    rw [hhead] at hn
    rw [recordsOf_sheet_of_blocks hblocks hd]
    exact length_wordsOf_of_declared hn
  all_goals rw [recordsOf_sheet_of_blocks hblocks hd]
  case courses =>
    refine List.forall₂_map_left_iff.2 (List.forall₂_map_right_iff.2 (List.forall₂_same.2 ?_))
    exact fun c hc => isCourse_courseWords (hw.course c hc) fun h => (hd.classic h).single c hc
  case rooms =>
    refine List.forall₂_map_left_iff.2 (List.forall₂_same.2 ?_)
    exact fun x hx => isRoom_roomWords (hw.room x hx) fun h => (hd.classic h).site x hx
  case curricula =>
    refine List.forall₂_map_left_iff.2 (List.forall₂_same.2 ?_)
    exact fun q hq => isCurriculum_curriculumWords (hw.curriculum q hq).2
  case unavailabilities =>
    refine List.forall₂_map_left_iff.2 (List.forall₂_same.2 ?_)
    intro u hu
    obtain ⟨-, hday, hperiod⟩ := hsound.unavailability u hu
    exact isUnavailability_unavailabilityWords (hday.trans hw.days) (hperiod.trans hw.periods)
  case roomConstraints =>
    refine List.forall₂_map_left_iff.2 (List.forall₂_same.2 ?_)
    exact fun k _ => isRoomConstraint_roomConstraintWords k

end

/-- What is written in a dialect that says all about the records is read back. -/
theorem read_print_of_suits {I : Instance} (hI : r.resolve = .ok I) (hw : Writable r)
    (hd : d.Suits r) : read (d.print r) = .ok I := by
  have hr := Records.defects_eq_nil_of_resolve hI
  obtain ⟨o, ho, hheader, hblocks⟩ := exists_outline_print hr hw
  refine read_eq_ok_iff.2 ⟨r.unnumbered, ?_, by rw [Records.resolve_unnumbered, hI]⟩
  rw [ho.ofLines_eq]
  exact lists_of_blocks hblocks hr hw hd hheader

/-- The records of the pair, without the constraint that the classic dialect cannot say. -/
def plainPair : Records := { Records.pair with roomConstraints := [] }

theorem writable_plainPair : Writable plainPair where
  name_trim := by decide
  name_line := by decide
  days := by decide
  periods := by decide
  least := by decide
  greatest := by decide
  course := by
    simp only [plainPair, Records.pair, List.forall_mem_cons, List.not_mem_nil, false_implies,
      implies_true, and_true]
    exact ⟨⟨by decide, by decide, by decide, by decide, by decide⟩,
      ⟨by decide, by decide, by decide, by decide, by decide⟩⟩
  room := by
    simp only [plainPair, Records.pair, List.forall_mem_cons, List.not_mem_nil, false_implies,
      implies_true, and_true]
    exact ⟨⟨by decide, by decide, by decide⟩, ⟨by decide, by decide, by decide⟩⟩
  curriculum := by decide
  length_courses := by decide
  length_rooms := by decide
  length_curricula := by decide
  length_unavailabilities := by decide
  length_roomConstraints := by decide

end Timetabling.Ctt
