import Timetabling.Proofs.Checked.Reader
import Timetabling.Proofs.Ctt.Reading
import Timetabling.Proofs.Instance.Diagnosis

/-! Why a text cannot be read, told of the text itself. A fault belongs to a line that is not blank. A
    wrong count is declared by the header, and the number beside it is that of the records of the
    section. An identifier that nothing declares is a fault of the line that mentions it: the readers of
    the sections look up every mention in the courses and rooms of the whole text, wherever these stand.
    So none is left when the records are resolved, and defects are of the other kinds. -/

namespace Timetabling.Ctt

open Text

/-! ### Steps that fail -/

theorem bind_eq_error_iff {ε α β : Type} {x : Except ε α} {f : α → Except ε β} {e : ε} :
    (x >>= f) = .error e ↔ x = .error e ∨ ∃ a, x = .ok a ∧ f a = .error e := by
  cases x with
  | error e' => simp [bind, Except.bind]
  | ok a => simp [bind, Except.bind]

theorem eq_error_of_bind_pure {ε α β : Type} {x : Except ε α} {f : α → β} {e : ε}
    (h : (x >>= fun a => pure (f a)) = .error e) : x = .error e := by
  rcases bind_eq_error_iff.1 h with h | ⟨_, -, h⟩
  · exact h
  · cases h

theorem exists_of_mapM_eq_error {ε α β : Type} {f : α → Except ε β} {xs : List α} {e : ε}
    (h : xs.mapM f = .error e) : ∃ x ∈ xs, f x = .error e := by
  induction xs with
  | nil => cases h
  | cons x xs ih =>
    rw [List.mapM_cons] at h
    rcases bind_eq_error_iff.1 h with h | ⟨_, -, h⟩
    · exact ⟨x, List.mem_cons_self .., h⟩
    · obtain ⟨x', hx', h⟩ := ih (eq_error_of_bind_pure h)
      exact ⟨x', List.mem_cons_of_mem _ hx', h⟩

/-- Whether the fault is a mention of what nothing declares. -/
def Fault.dangles : Fault → Bool
  | unknownCourse _ | unknownRoom _ => true
  | _ => false

/-- The error is a fault of the line itself, whatever other lines say. -/
def Line.Refuses (l : Line) (e : ReadError) : Prop :=
  ∃ fault, fault.dangles = false ∧ ReadError.malformed l.number fault = e

theorem Line.refuses_of_fail {α : Type} {l : Line} {fault : Fault} {e : ReadError}
    (h : (l.fail fault : Except ReadError α) = .error e) (hfault : fault.dangles = false) :
    l.Refuses e :=
  ⟨fault, hfault, Except.error.inj h⟩

/-! ### The header and the body -/

namespace Header

theorem refuses_of_count {l : Line} {word : String} {value : List Char} {e : ReadError}
    (h : count l word value = .error e) : l.Refuses e := by
  unfold count at h
  split at h
  · cases h
  · exact Line.refuses_of_fail h rfl

theorem refuses_of_bounds {l : Line} {word : String} {value : List Char} {e : ReadError}
    (h : bounds l word value = .error e) : l.Refuses e := by
  unfold bounds at h
  split at h
  · cases h
  · exact Line.refuses_of_fail h rfl

theorem refuses_of_declare {h : Header} {l : Line} {word : String} {value : List Char}
    {e : ReadError} (he : h.declare l word value = .error e) : l.Refuses e := by
  unfold declare at he
  cases hk : Key.ofWord? word with
  | none =>
    rw [hk] at he
    exact Line.refuses_of_fail he rfl
  | some k =>
    rw [hk] at he
    cases k
    case name => cases he
    case daily => exact refuses_of_bounds (eq_error_of_bind_pure he)
    all_goals exact refuses_of_count (eq_error_of_bind_pure he)

theorem refuses_of_read {h : Header} {ls : List Line} {e : ReadError} (he : h.read ls = .error e) :
    ∃ l ∈ ls, l.Refuses e := by
  induction ls generalizing h with
  | nil => cases he
  | cons l ls ih =>
    unfold read at he
    split at he
    · exact ⟨l, List.mem_cons_self .., Line.refuses_of_fail he rfl⟩
    · split at he
      · cases he
      · rcases bind_eq_error_iff.1 he with he | ⟨h', -, he⟩
        · exact ⟨l, List.mem_cons_self .., refuses_of_declare he⟩
        · obtain ⟨l', hl', he⟩ := ih he
          exact ⟨l', List.mem_cons_of_mem _ hl', he⟩

end Header

theorem Body.refuses_of_read {current : Option Section} {ls : List Line} {e : ReadError}
    (he : Body.read current ls = .error e) : ∃ l ∈ ls, l.Refuses e := by
  induction ls generalizing current with
  | nil => cases he
  | cons l ls ih =>
    have hlater : ∀ {current'}, Body.read current' ls = .error e → ∃ l' ∈ l :: ls, l'.Refuses e := by
      intro current' he
      obtain ⟨l', hl', he⟩ := ih he
      exact ⟨l', List.mem_cons_of_mem _ hl', he⟩
    unfold Body.read at he
    split at he
    · cases he
    split at he
    · exact hlater (eq_error_of_bind_pure he)
    · exact hlater (eq_error_of_bind_pure he)
    · exact ⟨l, List.mem_cons_self .., Line.refuses_of_fail he rfl⟩

/-- Every record stands on one of the lines. -/
theorem Body.exists_line_of_read {current : Option Section} {ls : List Line} {b : Body}
    (hb : Body.read current ls = .ok b) : ∀ r ∈ b.records, ∃ l ∈ ls, .ofLine l = r.2 := by
  induction ls generalizing current b with
  | nil =>
    obtain rfl := Except.ok.inj hb
    simp
  | cons l ls ih =>
    have hlater : ∀ {current' b'}, Body.read current' ls = .ok b' →
        ∀ r ∈ b'.records, ∃ l' ∈ l :: ls, .ofLine l' = r.2 := by
      intro current' b' hb' r hr
      obtain ⟨l', hl', he⟩ := ih hb' r hr
      exact ⟨l', List.mem_cons_of_mem _ hl', he⟩
    unfold Body.read at hb
    split at hb
    · obtain rfl := Except.ok.inj hb
      simp
    split at hb
    · obtain ⟨b', hb', h⟩ := bind_eq_ok_iff.1 hb
      obtain rfl := Except.ok.inj h
      exact fun r hr => hlater hb' r hr
    · obtain ⟨b', hb', h⟩ := bind_eq_ok_iff.1 hb
      obtain rfl := Except.ok.inj h
      exact List.forall_mem_cons.2 ⟨⟨l, List.mem_cons_self .., rfl⟩, hlater hb'⟩
    · cases hb

/-! ### The records -/

namespace Section

/-- The fields stand for a record of the section. -/
def Reads : Section → List (List Char) → Prop
  | courses, fields => ∃ c, IsCourse fields c
  | rooms, fields => ∃ x, IsRoom fields x
  | curricula, fields => ∃ q, IsCurriculum fields q
  | unavailabilities, fields => ∃ u, IsUnavailability fields u
  | roomConstraints, fields => ∃ k, IsRoomConstraint fields k

/-- The fields of a record in which it mentions courses. -/
def courseMentions : Section → List (List Char) → List (List Char)
  | curricula, fields => fields.drop 2
  | unavailabilities, fields | roomConstraints, fields => fields.take 1
  | courses, _ | rooms, _ => []

/-- The fields of a record in which it mentions rooms. -/
def roomMentions : Section → List (List Char) → List (List Char)
  | roomConstraints, fields => (fields.drop 1).take 1
  | courses, _ | rooms, _ | curricula, _ | unavailabilities, _ => []

theorem reads_curricula_iff {fields : List (List Char)} : curricula.Reads fields ↔
    ∃ id n ids, fields = id :: n :: ids ∧ unsigned? UInt64.size n = some ids.length := by
  constructor
  · rintro ⟨_, ⟨hn⟩⟩
    exact ⟨_, _, _, rfl, hn⟩
  · rintro ⟨_, _, _, rfl, hn⟩
    exact ⟨_, .intro hn⟩

theorem reads_unavailabilities_iff {fields : List (List Char)} : unavailabilities.Reads fields ↔
    ∃ id d p, fields = [id, d, p] ∧ (unsigned? UInt64.size d).isSome ∧
      (unsigned? UInt64.size p).isSome := by
  constructor
  · rintro ⟨_, ⟨hd, hp⟩⟩
    exact ⟨_, _, _, rfl, Option.isSome_of_eq_some hd, Option.isSome_of_eq_some hp⟩
  · rintro ⟨_, _, _, rfl, hd, hp⟩
    exact ⟨_, .intro (Option.some_get hd).symm (Option.some_get hp).symm⟩

theorem reads_roomConstraints_iff {fields : List (List Char)} : roomConstraints.Reads fields ↔
    ∃ id x, fields = [id, x] := by
  constructor
  · rintro ⟨_, ⟨_⟩⟩
    exact ⟨_, _, rfl⟩
  · rintro ⟨_, _, rfl⟩
    exact ⟨_, .intro⟩

end Section

/-! Fields stand for one record only, whatever the line is that they stand on. -/

theorem rightUnique_isCourse : Relator.RightUnique IsCourse := by
  intro fields c c' h h'
  have hc := (Record.course_eq_ok_iff (r := ⟨⟨0, []⟩, fields⟩)).2 h
  exact Except.ok.inj (hc.symm.trans (Record.course_eq_ok_iff.2 h'))

theorem rightUnique_isRoom : Relator.RightUnique IsRoom := by
  intro fields x x' h h'
  have hx := (Record.room_eq_ok_iff (r := ⟨⟨0, []⟩, fields⟩)).2 h
  exact Except.ok.inj (hx.symm.trans (Record.room_eq_ok_iff.2 h'))

theorem rightUnique_isCurriculum : Relator.RightUnique IsCurriculum := by
  rintro _ _ _ ⟨_⟩ ⟨_⟩
  rfl

theorem rightUnique_isUnavailability : Relator.RightUnique IsUnavailability := by
  rintro _ _ _ ⟨hd, hp⟩ ⟨hd', hp'⟩
  rw [Option.some.inj (hd.symm.trans hd'), Option.some.inj (hp.symm.trans hp')]

theorem rightUnique_isRoomConstraint : Relator.RightUnique IsRoomConstraint := by
  rintro _ _ _ ⟨⟩ ⟨⟩
  rfl

namespace Record

/-- What can go wrong with a record of a section where these are the courses and the rooms. -/
inductive Fails (r : Record) (s : Section) (courses : List Course) (rooms : List Room) :
    ReadError → Prop
  | refused {e : ReadError} : r.line.Refuses e → ¬s.Reads r.fields → Fails r s courses rooms e
  | course {id : List Char} : id ∈ s.courseMentions r.fields →
      (courses.any fun c => c.id = String.ofList id) = false →
      Fails r s courses rooms (.malformed r.line.number (.unknownCourse (String.ofList id)))
  | room {id : List Char} : id ∈ s.roomMentions r.fields →
      (rooms.any fun x => x.id = String.ofList id) = false →
      Fails r s courses rooms (.malformed r.line.number (.unknownRoom (String.ofList id)))

variable {r : Record} {courses : List Course} {rooms : List Room} {e : ReadError}

theorem refuses_of_number {limit : Nat} {what : String} {raw : List Char}
    (h : r.number limit what raw = .error e) : r.line.Refuses e ∧ unsigned? limit raw = none := by
  unfold number at h
  split at h
  · cases h
  · rename_i hnone
    exact ⟨Line.refuses_of_fail h rfl, hnone⟩

theorem refuses_of_courseWith {double : Bool} {id teacher l d s : List Char}
    (h : r.courseWith double id teacher l d s = .error e) : r.line.Refuses e := by
  unfold courseWith at h
  rcases bind_eq_error_iff.1 h with h | ⟨_, -, h⟩
  · exact (refuses_of_number h).1
  rcases bind_eq_error_iff.1 h with h | ⟨_, -, h⟩
  · exact (refuses_of_number h).1
  · exact (refuses_of_number (eq_error_of_bind_pure h)).1

theorem refuses_of_course (h : r.course = .error e) :
    r.line.Refuses e ∧ ¬Section.courses.Reads r.fields := by
  have hreads : ¬Section.courses.Reads r.fields := by
    rintro ⟨c, hc⟩
    rw [course_eq_ok_iff.2 hc] at h
    cases h
  refine ⟨?_, hreads⟩
  unfold course at h
  split at h
  · exact refuses_of_courseWith h
  · rcases bind_eq_error_iff.1 h with h | ⟨_, -, h⟩
    · exact (refuses_of_number h).1
    · exact refuses_of_courseWith h
  · exact Line.refuses_of_fail h rfl

theorem refuses_of_room (h : r.room = .error e) :
    r.line.Refuses e ∧ ¬Section.rooms.Reads r.fields := by
  have hreads : ¬Section.rooms.Reads r.fields := by
    rintro ⟨x, hx⟩
    rw [room_eq_ok_iff.2 hx] at h
    cases h
  refine ⟨?_, hreads⟩
  unfold room at h
  split at h
  · exact (refuses_of_number (eq_error_of_bind_pure h)).1
  · rcases bind_eq_error_iff.1 h with h | ⟨_, -, h⟩
    · exact (refuses_of_number h).1
    · exact (refuses_of_number (eq_error_of_bind_pure h)).1
  · exact Line.refuses_of_fail h rfl

theorem knownCourse_eq_error {id : List Char} (h : r.knownCourse courses id = .error e) :
    (courses.any fun c => c.id = String.ofList id) = false ∧
      .malformed r.line.number (.unknownCourse (String.ofList id)) = e := by
  unfold knownCourse at h
  split at h
  · cases h
  · rename_i hnone
    exact ⟨Bool.eq_false_of_not_eq_true hnone, Except.error.inj h⟩

theorem knownRoom_eq_error {id : List Char} (h : r.knownRoom rooms id = .error e) :
    (rooms.any fun x => x.id = String.ofList id) = false ∧
      .malformed r.line.number (.unknownRoom (String.ofList id)) = e := by
  unfold knownRoom at h
  split at h
  · cases h
  · rename_i hnone
    exact ⟨Bool.eq_false_of_not_eq_true hnone, Except.error.inj h⟩

theorem fails_of_curriculum (h : r.curriculum courses = .error e) :
    r.Fails .curricula courses rooms e := by
  unfold curriculum at h
  split at h
  · rename_i id n ids hfields
    rcases bind_eq_error_iff.1 h with h | ⟨count, hcount, h⟩
    · obtain ⟨hrefuses, hnone⟩ := refuses_of_number h
      exact .refused hrefuses (by simp [Section.reads_curricula_iff, hfields, hnone])
    split at h
    · rename_i hne
      exact .refused (Line.refuses_of_fail h rfl)
        (by simpa [Section.reads_curricula_iff, hfields, number_eq_ok_iff.1 hcount] using hne)
    · obtain ⟨id, hid, h⟩ := exists_of_mapM_eq_error (eq_error_of_bind_pure h)
      obtain ⟨hnone, rfl⟩ := knownCourse_eq_error h
      exact .course (by simpa [Section.courseMentions, hfields] using hid) hnone
  · rename_i hfields
    exact .refused (Line.refuses_of_fail h rfl)
      (by simpa [Section.reads_curricula_iff] using fun _ _ _ hf => absurd hf (hfields _ _ _))

theorem fails_of_unavailability (h : r.unavailability courses = .error e) :
    r.Fails .unavailabilities courses rooms e := by
  unfold unavailability at h
  split at h
  · rename_i id d p hfields
    rcases bind_eq_error_iff.1 h with h | ⟨_, -, h⟩
    · obtain ⟨hnone, rfl⟩ := knownCourse_eq_error h
      exact .course (by simp [Section.courseMentions, hfields]) hnone
    rcases bind_eq_error_iff.1 h with h | ⟨_, -, h⟩
    · obtain ⟨hrefuses, hnone⟩ := refuses_of_number h
      exact .refused hrefuses (by simp [Section.reads_unavailabilities_iff, hfields, hnone])
    · obtain ⟨hrefuses, hnone⟩ := refuses_of_number (eq_error_of_bind_pure h)
      exact .refused hrefuses (by simp [Section.reads_unavailabilities_iff, hfields, hnone])
  · rename_i hfields
    exact .refused (Line.refuses_of_fail h rfl)
      (by simpa [Section.reads_unavailabilities_iff] using fun _ _ _ hf => absurd hf (hfields _ _ _))

theorem fails_of_roomConstraint (h : r.roomConstraint courses rooms = .error e) :
    r.Fails .roomConstraints courses rooms e := by
  unfold roomConstraint at h
  split at h
  · rename_i id x hfields
    rcases bind_eq_error_iff.1 h with h | ⟨_, -, h⟩
    · obtain ⟨hnone, rfl⟩ := knownCourse_eq_error h
      exact .course (by simp [Section.courseMentions, hfields]) hnone
    · obtain ⟨hnone, rfl⟩ := knownRoom_eq_error (eq_error_of_bind_pure h)
      exact .room (by simp [Section.roomMentions, hfields]) hnone
  · rename_i hfields
    exact .refused (Line.refuses_of_fail h rfl)
      (by simpa [Section.reads_roomConstraints_iff] using hfields)

end Record

/-! ### The sections -/

/-- What the header declares for a field of the grid. -/
def Header.gridField (h : Header) : GridField → Option Nat
  | .days => h.days
  | .periods => h.periods

/-- What can go wrong with the sections of a text. -/
inductive Body.Fails (h : Header) (b : Body) : ReadError → Prop
  | missingField {field : GridField} : h.gridField field = none → Fails h b (.missingField field)
  | missingSection {s : Section} : s ∉ b.titles →
      (s = .roomConstraints → ∃ n, h.roomConstraints = some n ∧ 0 < n) →
      Fails h b (.missingSection s)
  | wrongCount {s : Section} {n : Nat} : h.declared s = some n → n ≠ (b.recordsOf s).length →
      Fails h b (.wrongCount s n (b.recordsOf s).length)
  | refused {s : Section} {r : Record} {e : ReadError} : r ∈ b.recordsOf s → r.line.Refuses e →
      ¬s.Reads r.fields → Fails h b e
  | course {s : Section} {r : Record} {id : List Char} : r ∈ b.recordsOf s →
      id ∈ s.courseMentions r.fields → (∀ c ∈ b.recordsOf .courses, c.fields.head? ≠ some id) →
      Fails h b (.malformed r.line.number (.unknownCourse (String.ofList id)))
  | room {s : Section} {r : Record} {id : List Char} : r ∈ b.recordsOf s →
      id ∈ s.roomMentions r.fields → (∀ x ∈ b.recordsOf .rooms, x.fields.head? ≠ some id) →
      Fails h b (.malformed r.line.number (.unknownRoom (String.ofList id)))

theorem grid_eq_error {declared : Option Nat} {field : GridField} {e : ReadError}
    (h : Header.grid declared field = .error e) : declared = none ∧ .missingField field = e := by
  cases declared with
  | none => exact ⟨rfl, Except.error.inj h⟩
  | some n => cases h

theorem counted_eq_error {b : Body} {s : Section} {required : Bool} {declared : Option Nat}
    {e : ReadError} (h : b.counted s required declared = .error e) :
    (required = true ∧ s ∉ b.titles ∧ .missingSection s = e) ∨
      ∃ n, declared = some n ∧ n ≠ (b.recordsOf s).length ∧
        .wrongCount s n (b.recordsOf s).length = e := by
  unfold Body.counted at h
  split at h
  · rename_i hmissing
    exact .inl ⟨by simp_all, by simp_all, Except.error.inj h⟩
  split at h
  · split at h
    · cases h
    · rename_i n hne
      exact .inr ⟨n, rfl, hne, Except.error.inj h⟩
  · cases h

theorem exists_of_forall₂ {α β : Type} {R : α → β → Prop} {xs : List α} {ys : List β}
    (h : List.Forall₂ R xs ys) {x : α} (hx : x ∈ xs) : ∃ y ∈ ys, R x y := by
  obtain ⟨i, hi, rfl⟩ := List.mem_iff_getElem.1 hx
  exact ⟨_, List.getElem_mem (h.length_eq ▸ hi), h.get hi _⟩

theorem IsCourse.head?_eq {fields : List (List Char)} {c : Course} (h : IsCourse fields c) :
    fields.head?.map String.ofList = some c.id := by
  cases h <;> rfl

theorem IsRoom.head?_eq {fields : List (List Char)} {x : Room} (h : IsRoom fields x) :
    fields.head?.map String.ofList = some x.id := by
  cases h <;> rfl

/-- What nothing that is read has as its identifier heads none of the records. -/
theorem head?_ne_of_mapM {α : Type} {f : Record → Except ReadError α} {name : α → String}
    (hname : ∀ r a, f r = .ok a → r.fields.head?.map String.ofList = some (name a))
    {rs : List Record} {xs : List α} {id : List Char} (h : rs.mapM f = .ok xs)
    (hid : (xs.any fun a => name a = String.ofList id) = false) :
    ∀ r ∈ rs, r.fields.head? ≠ some id := by
  intro r hr hhead
  obtain ⟨a, ha, hf⟩ := exists_of_forall₂ (mapM_eq_ok_iff.1 h) hr
  have hsome := hname r a hf
  rw [hhead] at hsome
  exact List.any_eq_false.1 hid a ha (decide_eq_true (Option.some.inj hsome).symm)

theorem head?_ne_of_courses {rs : List Record} {courses : List Course} {id : List Char}
    (h : rs.mapM Record.course = .ok courses)
    (hid : (courses.any fun c => c.id = String.ofList id) = false) :
    ∀ r ∈ rs, r.fields.head? ≠ some id :=
  head?_ne_of_mapM (fun _ _ hc => (Record.course_eq_ok_iff.1 hc).head?_eq) h hid

theorem head?_ne_of_rooms {rs : List Record} {rooms : List Room} {id : List Char}
    (h : rs.mapM Record.room = .ok rooms)
    (hid : (rooms.any fun x => x.id = String.ofList id) = false) :
    ∀ r ∈ rs, r.fields.head? ≠ some id :=
  head?_ne_of_mapM (fun _ _ hx => (Record.room_eq_ok_iff.1 hx).head?_eq) h hid

section

variable {h : Header} {b : Body} {e : ReadError}

/-- A section fails as a whole or in one of its records, or what fails comes after it. -/
theorem fails_of_section {α β : Type} {s : Section} {required : Bool} {f : Record → Except ReadError α}
    {k : List α → Except ReadError β}
    (he : (b.counted s required (h.declared s) >>= fun rs => rs.mapM f >>= k) = .error e)
    (hrequired : required = true → s = .roomConstraints → ∃ n, h.roomConstraints = some n ∧ 0 < n)
    (hf : ∀ r ∈ b.recordsOf s, f r = .error e → b.Fails h e) :
    b.Fails h e ∨ ∃ xs, (b.recordsOf s).mapM f = .ok xs ∧ k xs = .error e := by
  rcases bind_eq_error_iff.1 he with he | ⟨rs, hrs, he⟩
  · rcases counted_eq_error he with ⟨hr, hs, rfl⟩ | ⟨n, hn, hne, rfl⟩
    · exact .inl (.missingSection hs (hrequired hr))
    · exact .inl (.wrongCount hn hne)
  obtain ⟨-, -, rfl⟩ := counted_eq_ok_iff.1 hrs
  rcases bind_eq_error_iff.1 he with he | ⟨xs, hxs, he⟩
  · obtain ⟨r, hr, he⟩ := exists_of_mapM_eq_error he
    exact .inl (hf r hr he)
  · exact .inr ⟨xs, hxs, he⟩

/-- The records of the sections fail alone, once the courses and the rooms are read. -/
theorem fails_of_record {s : Section} {r : Record} {courses : List Course} {rooms : List Room}
    (hcourses : (b.recordsOf .courses).mapM Record.course = .ok courses)
    (hrooms : (b.recordsOf .rooms).mapM Record.room = .ok rooms) (hr : r ∈ b.recordsOf s)
    (he : r.Fails s courses rooms e) : b.Fails h e := by
  cases he with
  | refused hrefuses hreads => exact .refused hr hrefuses hreads
  | course hid hnone => exact .course hr hid (head?_ne_of_courses hcourses hnone)
  | room hid hnone => exact .room hr hid (head?_ne_of_rooms hrooms hnone)

theorem fails_of_recordsOf (he : recordsOf h b = .error e) : b.Fails h e := by
  unfold recordsOf at he
  rcases bind_eq_error_iff.1 he with he | ⟨days, -, he⟩
  · obtain ⟨hnone, rfl⟩ := grid_eq_error he
    exact .missingField hnone
  rcases bind_eq_error_iff.1 he with he | ⟨periods, -, he⟩
  · obtain ⟨hnone, rfl⟩ := grid_eq_error he
    exact .missingField hnone
  rcases fails_of_section (s := .courses) he (fun _ hs => nomatch hs) fun r hr he =>
    .refused hr (Record.refuses_of_course he).1 (Record.refuses_of_course he).2
    with hfails | ⟨courses, hcourses, he⟩
  · exact hfails
  rcases fails_of_section (s := .rooms) he (fun _ hs => nomatch hs) fun r hr he =>
    .refused hr (Record.refuses_of_room he).1 (Record.refuses_of_room he).2
    with hfails | ⟨rooms, hrooms, he⟩
  · exact hfails
  rcases fails_of_section (s := .curricula) he (fun _ hs => nomatch hs) fun r hr he =>
    fails_of_record hcourses hrooms hr (Record.fails_of_curriculum he) with hfails | ⟨_, -, he⟩
  · exact hfails
  rcases fails_of_section (s := .unavailabilities) he (fun _ hs => nomatch hs) fun r hr he =>
    fails_of_record hcourses hrooms hr (Record.fails_of_unavailability he) with hfails | ⟨_, -, he⟩
  · exact hfails
  have hrequired : (h.roomConstraints.any (0 < ·)) = true →
      Section.roomConstraints = .roomConstraints → ∃ n, h.roomConstraints = some n ∧ 0 < n := by
    intro hany _
    obtain ⟨n, hn, hpos⟩ := (Option.any_eq_true ..).1 hany
    exact ⟨n, hn, of_decide_eq_true hpos⟩
  rcases fails_of_section (s := .roomConstraints) he hrequired fun r hr he =>
    fails_of_record hcourses hrooms hr (Record.fails_of_roomConstraint he) with hfails | ⟨_, -, he⟩
  · exact hfails
  · cases he

end

/-! ### The text -/

theorem mem_ofText {text : List Char} {l : Line} (hl : l ∈ Line.ofText text) :
    ∃ raw, 0 < l.number ∧ (lines text)[l.number - 1]? = some raw ∧ ¬Blank raw ∧ trim raw = l.text := by
  obtain ⟨hl, hne⟩ := List.mem_filter.1 hl
  obtain ⟨⟨raw, n⟩, hraw, rfl⟩ := List.mem_map.1 hl
  obtain ⟨hn, hget⟩ := List.mem_zipIdx_iff_le_and_getElem?_sub.1 hraw
  exact ⟨raw, hn, hget, fun hblank => by simp [trim_eq_nil_iff.2 hblank] at hne, rfl⟩

/-- The fields stand in a record that mentions a course or a room which no record of the sheet declares. -/
inductive Sheet.Dangling (sh : Sheet) (fields : List (List Char)) : Fault → Prop
  | course {s : Section} {id : List Char} : fields ∈ sh.recordsOf s → id ∈ s.courseMentions fields →
      (∀ c ∈ sh.recordsOf .courses, c.head? ≠ some id) →
      Dangling sh fields (.unknownCourse (String.ofList id))
  | room {s : Section} {id : List Char} : fields ∈ sh.recordsOf s → id ∈ s.roomMentions fields →
      (∀ x ∈ sh.recordsOf .rooms, x.head? ≠ some id) →
      Dangling sh fields (.unknownRoom (String.ofList id))

/-- What an error tells of a text is so. -/
def ReadError.Holds (text : List Char) : ReadError → Prop
  | .malformed n fault => ∃ l, 0 < n ∧ (lines text)[n - 1]? = some l ∧ ¬Blank l ∧
      (fault.dangles = true → (Sheet.ofLines (lines text)).Dangling (words l) fault)
  | .missingField field => (Sheet.ofLines (lines text)).head.gridField field = none
  | .missingSection s => (Sheet.ofLines (lines text)).sections s = none
  | .wrongCount s declared found => (Sheet.ofLines (lines text)).head.declared s = some declared ∧
      found = ((Sheet.ofLines (lines text)).recordsOf s).length ∧ declared ≠ found
  | .defective ds => ds ≠ [] ∧
      (∀ d ∈ ds, d.kind = .duplicateId ∨ d.kind = .slotOutOfRange ∨ d.kind = .emptyGrid) ∧
      ∃ r, (Sheet.ofLines (lines text)).Lists r ∧ Known r ∧ r.defects = ds

variable {text : List Char} {e : ReadError}

theorem holds_of_refuses {l : Line} (hl : l ∈ Line.ofText text) (he : l.Refuses e) : e.Holds text := by
  obtain ⟨fault, hfault, rfl⟩ := he
  obtain ⟨raw, hpos, hraw, hblank, -⟩ := mem_ofText hl
  exact ⟨raw, hpos, hraw, hblank, fun hdangles => by rw [hfault] at hdangles; cases hdangles⟩

theorem Parts.exists_line {h : Header} {b : Body} (hparts : Parts text h b) {s : Section} {r : Record}
    (hr : r ∈ b.recordsOf s) : ∃ l ∈ Line.ofText text, .ofLine l = r := by
  obtain ⟨rest, hheader, hb⟩ := hparts
  obtain ⟨front, -, hlines, -⟩ := Header.exists_fields_of_read hheader
  obtain ⟨⟨s', r'⟩, hr', rfl⟩ := List.mem_map.1 hr
  obtain ⟨l, hl, he⟩ := Body.exists_line_of_read hb _ (List.mem_of_mem_filter hr')
  exact ⟨l, hlines ▸ List.mem_append_right _ hl, he⟩

theorem Parts.holds_of_fails {h : Header} {b : Body} (hparts : Parts text h b) (he : b.Fails h e) :
    e.Holds text := by
  -- a dangling mention is a fault of the line of its record
  have hdangling : ∀ {s r fault}, r ∈ b.recordsOf s →
      (r.fields ∈ (Sheet.ofLines (lines text)).recordsOf s →
        (Sheet.ofLines (lines text)).Dangling r.fields fault) →
      (ReadError.malformed r.line.number fault).Holds text := by
    intro s r fault hr hdangling
    obtain ⟨l, hl, rfl⟩ := hparts.exists_line hr
    obtain ⟨raw, hpos, hraw, hblank, htrim⟩ := mem_ofText hl
    have hfields : (Record.ofLine l).fields = words raw := by
      rw [← words_trim, htrim]
      rfl
    have hmem : (Record.ofLine l).fields ∈ (Sheet.ofLines (lines text)).recordsOf s := by
      rw [hparts.recordsOf_sheet]
      exact List.mem_map_of_mem hr
    exact ⟨raw, hpos, hraw, hblank, fun _ => hfields ▸ hdangling hmem⟩
  cases he with
  | missingField hnone =>
    rw [ReadError.Holds, hparts.head_sheet]
    exact hnone
  | missingSection hs _ => exact hparts.sections_sheet_eq_none_iff.2 hs
  | wrongCount hn hne =>
    rw [ReadError.Holds, hparts.head_sheet, hparts.recordsOf_sheet, List.length_map]
    exact ⟨hn, rfl, hne⟩
  | refused hr hrefuses _ =>
    obtain ⟨l, hl, rfl⟩ := hparts.exists_line hr
    exact holds_of_refuses hl hrefuses
  | course hr hid hnone =>
    refine hdangling hr fun hfields => .course hfields hid ?_
    simpa [hparts.recordsOf_sheet] using hnone
  | room hr hid hnone =>
    refine hdangling hr fun hfields => .room hfields hid ?_
    simpa [hparts.recordsOf_sheet] using hnone

theorem holds_of_readRecords (he : readRecords text = .error e) : e.Holds text := by
  unfold readRecords at he
  rcases bind_eq_error_iff.1 he with he | ⟨⟨h, rest⟩, hheader, he⟩
  · obtain ⟨l, hl, he⟩ := Header.refuses_of_read he
    exact holds_of_refuses hl he
  rcases bind_eq_error_iff.1 he with he | ⟨b, hb, he⟩
  · obtain ⟨front, -, hlines, -⟩ := Header.exists_fields_of_read hheader
    obtain ⟨l, hl, he⟩ := Body.refuses_of_read he
    exact holds_of_refuses (hlines ▸ List.mem_append_right _ hl) he
  · exact Parts.holds_of_fails ⟨rest, hheader, hb⟩ (fails_of_recordsOf he)

/-- Where nothing unknown is mentioned, only identifiers, slots and the grid can be wrong. -/
theorem Known.kind_of_mem_defects {r : Records} (hr : Known r) {d : Defect} (hd : d ∈ r.defects) :
    d.kind = .duplicateId ∨ d.kind = .slotOutOfRange ∨ d.kind = .emptyGrid := by
  rw [← Records.map_snd_located] at hd
  obtain ⟨⟨p, d⟩, he, rfl⟩ := List.mem_map.1 hd
  cases Records.mem_located.1 he with
  | grid _ => exact .inr (.inr rfl)
  | course _ | room _ | curriculum _ => exact .inl rfl
  | unavailabilitySlot _ _ => exact .inr (.inl rfl)
  | member hq hc hnone =>
    simp [hr.members _ (List.mem_of_getElem? hq) _ (List.mem_of_getElem? hc)] at hnone
  | unavailabilityCourse hu hnone => simp [hr.unavailability _ (List.mem_of_getElem? hu)] at hnone
  | constraintCourse hk hnone => simp [hr.roomConstraint _ (List.mem_of_getElem? hk)] at hnone
  | constraintRoom hk hnone => simp [hr.roomConstraint _ (List.mem_of_getElem? hk)] at hnone

theorem holds_of_resolve {r : Records} (hr : readRecords text = .ok r)
    (he : r.resolve.mapError .defective = .error e) : e.Holds text := by
  obtain ⟨hlists, hknown⟩ := readRecords_eq_ok_iff.1 hr
  have hne : r.defects ≠ [] := by
    intro hnil
    obtain ⟨I, hI⟩ := Records.exists_resolve hnil
    rw [hI] at he
    cases he
  rw [Records.resolve_of_defects_ne_nil hne] at he
  obtain rfl := Except.error.inj he
  exact ⟨hne, fun d hd => hknown.kind_of_mem_defects hd, r, hlists, hknown, rfl⟩

/-! ### Mentions of what nothing declares -/

/-- A sheet lists no other records. -/
theorem Sheet.Lists.unique {sh : Sheet} {r r' : Records} (h : sh.Lists r) (h' : sh.Lists r') :
    r = r' := by
  have hcourses : r.courses = r'.courses :=
    List.right_unique_forall₂' rightUnique_isCourse h.courses h'.courses
  have hrooms : r.rooms = r'.rooms :=
    List.right_unique_forall₂' rightUnique_isRoom h.rooms h'.rooms
  have hcurricula : r.curricula = r'.curricula :=
    List.right_unique_forall₂' rightUnique_isCurriculum h.curricula h'.curricula
  have hunavailabilities : r.unavailabilities = r'.unavailabilities :=
    List.right_unique_forall₂' rightUnique_isUnavailability h.unavailabilities h'.unavailabilities
  have hroomConstraints : r.roomConstraints = r'.roomConstraints :=
    List.right_unique_forall₂' rightUnique_isRoomConstraint h.roomConstraints h'.roomConstraints
  have hname := h.name.symm.trans h'.name
  have hdays := Option.some.inj (h.days.symm.trans h'.days)
  have hperiods := Option.some.inj (h.periods.symm.trans h'.periods)
  have hdaily := h.daily.symm.trans h'.daily
  cases r
  cases r'
  simp_all

theorem Sheet.Lists.reads {sh : Sheet} {r : Records} (h : sh.Lists r) {s : Section}
    {fields : List (List Char)} (hf : fields ∈ sh.recordsOf s) : s.Reads fields := by
  cases s with
  | courses => exact (exists_of_forall₂ h.courses hf).imp fun _ => And.right
  | rooms => exact (exists_of_forall₂ h.rooms hf).imp fun _ => And.right
  | curricula => exact (exists_of_forall₂ h.curricula hf).imp fun _ => And.right
  | unavailabilities => exact (exists_of_forall₂ h.unavailabilities hf).imp fun _ => And.right
  | roomConstraints => exact (exists_of_forall₂ h.roomConstraints hf).imp fun _ => And.right

/-- Only a dangling mention keeps the records that a sheet lists from being read. -/
theorem Parts.dangles_of_lists {h : Header} {b : Body} (hparts : Parts text h b) {r : Records}
    (hr : (Sheet.ofLines (lines text)).Lists r) (he : b.Fails h e) :
    ∃ n fault, .malformed n fault = e ∧ fault.dangles = true := by
  cases he with
  | @missingField field hnone =>
    rw [← hparts.head_sheet] at hnone
    cases field with
    | days => exact absurd (hr.days.symm.trans hnone) (by simp)
    | periods => exact absurd (hr.periods.symm.trans hnone) (by simp)
  | @missingSection s hs hrequired =>
    have hnone := hparts.sections_sheet_eq_none_iff.2 hs
    by_cases hlast : s = .roomConstraints
    · obtain ⟨n, hn, hpos⟩ := hrequired hlast
      subst hlast
      rw [← hparts.head_sheet] at hn
      have hzero := hr.counted .roomConstraints n hn
      simp [Sheet.recordsOf, hnone] at hzero
      omega
    · have hsome := hr.present s hlast
      simp [hnone] at hsome
  | @wrongCount s n hn hne =>
    rw [← hparts.head_sheet] at hn
    have hcounted := hr.counted s n hn
    rw [hparts.recordsOf_sheet, List.length_map] at hcounted
    exact absurd hcounted hne
  | @refused s r _ hmem _ hreads =>
    refine absurd (hr.reads ?_) hreads
    rw [hparts.recordsOf_sheet]
    exact List.mem_map_of_mem hmem
  | course => exact ⟨_, _, rfl, rfl⟩
  | room => exact ⟨_, _, rfl, rfl⟩

theorem exists_dangles_of_lists {r : Records} (hr : (Sheet.ofLines (lines text)).Lists r)
    (hunknown : ¬Known r) : ∃ n fault, read text = .error (.malformed n fault) ∧
      fault.dangles = true := by
  obtain ⟨h, b, hparts⟩ := exists_parts_of_lists hr
  cases hread : readRecords text with
  | ok r' =>
    obtain ⟨hr', hknown⟩ := readRecords_eq_ok_iff.1 hread
    exact absurd (hr'.unique hr ▸ hknown) hunknown
  | error e =>
    have he := fails_of_recordsOf (hparts.readRecords_eq.symm.trans hread)
    obtain ⟨n, fault, rfl, hdangles⟩ := hparts.dangles_of_lists hr he
    exact ⟨n, fault, by rw [read, hread]; rfl, hdangles⟩

end Timetabling.Ctt
