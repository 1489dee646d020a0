import Timetabling.Layout
import Timetabling.Proofs.Canonicity
import Timetabling.Proofs.Checked.Tables
import Timetabling.Proofs.Instance.Resolution
import Timetabling.Proofs.Text.Numeral

/-! Solution texts that are read back. Where no identifier has a blank in it, a line of the text falls
    apart into its four fields again, and these name the course, the room, the day and the period of one
    booking. The bookings of a timetable can be added to an empty one in whichever order they are read,
    since no two of them get in each other's way. So a timetable is known by its solution text. -/

namespace Timetabling

open Text

variable {I : Instance}

/-! ### Reading -/

/-- The meeting that the four fields of a line stand for, if there are a course and a room with these
    identifiers. -/
def RoomMeeting.ofLine? (I : Instance) (line : List Char) : Option RoomMeeting :=
  match words line with
  | [course, room, day, period] => do
    let c ← I.courseNumber? (String.ofList course)
    let r ← I.roomNumber? (String.ofList room)
    let day ← decimal? day
    let period ← decimal? period
    return ⟨c, day, period, r⟩
  | _ => none

/-- Each course and each room has an identifier that is a word. -/
structure Spelled (I : Instance) : Prop where
  course : ∀ c : CourseIx I, Word (Instance.course c).id.toList
  room : ∀ r : RoomIx I, Word (Instance.room r).id.toList

/-- The lines are those of the solution text of the timetable, one of four fields for each of its
    bookings. The meetings on them can be added one after another and make the timetable again. -/
structure Timetable.ReadsBack (t : Timetable I) (ls : List (List Char)) : Prop where
  lines_eq : lines t.solutionText.toList = ls ++ [[]]
  length_eq : ls.length = t.size
  length_words : ∀ l ∈ ls, (words l).length = 4
  restored : ∃ ms, ls.mapM (RoomMeeting.ofLine? I) = some ms ∧ (empty : Timetable I).addAll ms = .ok t

/-! ### Lines of a text -/

theorem toList_unlines (ls : List String) :
    (unlines ls).toList = ['\n'].intercalate (ls.map String.toList ++ [[]]) := by
  induction ls with
  | nil => rfl
  | cons l ls ih =>
    have hcons : unlines (l :: ls) = l ++ "\n" ++ unlines ls := by simp [unlines]
    rw [hcons, String.toList_append, String.toList_append, ih, List.map_cons, List.cons_append,
      List.intercalate_cons_of_ne_nil (by simp)]
    rfl

theorem lines_toList_unlines {ls : List String} (h : ∀ l ∈ ls, '\n' ∉ l.toList) :
    lines (unlines ls).toList = ls.map String.toList ++ [[]] := by
  rw [toList_unlines]
  refine List.splitOn_intercalate '\n' ?_ (by simp)
  intro cs hcs
  rcases List.mem_append.1 hcs with hcs | hcs
  · obtain ⟨l, hl, rfl⟩ := List.mem_map.1 hcs
    exact h l hl
  · simp [List.mem_singleton.1 hcs]

/-! ### Identifiers -/

/-- Every course and every room is found again by its identifier. -/
structure Named (I : Instance) : Prop where
  courseNumber?_id : ∀ c : CourseIx I, I.courseNumber? (Instance.course c).id = some c.val
  roomNumber?_id : ∀ r : RoomIx I, I.roomNumber? (Instance.room r).id = some r.val

theorem named_of_resolve {r : Records} (h : r.resolve = .ok I) : Named I := by
  have hr := (Records.valid_of_resolve h).toSound
  obtain ⟨members, unavailable, forbidden, -, -, -, rfl⟩ :=
    Records.link?_eq_some_iff.1 (Records.link?_eq_some_of_resolve h)
  constructor
  · intro c
    refine (findIdx?_toArray_eq_some_iff_of_nodup ?_).2 ?_
    · rw [Records.ids_linked]
      exact hr.nodup_courses
    · rw [Array.getElem?_eq_getElem c.isLt]
      rfl
  · intro x
    refine (findIdx?_toArray_eq_some_iff_of_nodup hr.nodup_rooms).2 ?_
    rw [Array.getElem?_eq_getElem x.isLt]
    rfl

namespace Timetable

open Booking

variable {t u : Timetable I} {M : Finset (Booking I)}

/-! ### One line -/

/-- The four fields of a booking. -/
def solutionFields (b : Booking I) : List (List Char) :=
  [(Instance.course b.course).id.toList, (Instance.room b.room).id.toList, numeral b.day,
    numeral b.period]

theorem toList_solutionLine (b : Booking I) : (solutionLine b).toList = unwords (solutionFields b) := by
  simp [solutionLine, solutionFields, unwords, numeral]

theorem word_of_mem_solutionFields (hI : Spelled I) (b : Booking I) :
    ∀ w ∈ solutionFields b, Word w := by
  simp [solutionFields, hI.course, hI.room, word_numeral]

theorem words_solutionLine (hI : Spelled I) (b : Booking I) :
    words (solutionLine b).toList = solutionFields b := by
  rw [toList_solutionLine, words_unwords (word_of_mem_solutionFields hI b)]

theorem lineFeed_notMem_solutionLine (hI : Spelled I) (b : Booking I) :
    '\n' ∉ (solutionLine b).toList := by
  rw [toList_solutionLine]
  exact not_mem_unwords (word_of_mem_solutionFields hI b) (by decide) (by decide)

theorem ofLine?_solutionLine (hn : Named I) (hI : Spelled I) (b : Booking I) :
    RoomMeeting.ofLine? I (solutionLine b).toList = some b.meeting := by
  rw [RoomMeeting.ofLine?, words_solutionLine hI]
  simp [solutionFields, hn.courseNumber?_id, hn.roomNumber?_id, decimal?_numeral, Booking.meeting]

/-! ### All lines -/

/-- The bookings in the order of their lines. -/
def solutionBookings (t : Timetable I) : List (Booking I) :=
  (List.finRange I.courses.size).flatMap t.bookingsOf

theorem solutionLines_eq (t : Timetable I) : t.solutionLines = t.solutionBookings.map solutionLine := by
  rw [solutionLines, solutionBookings, List.map_flatMap]

theorem length_solutionBookings (t : Timetable I) : t.solutionBookings.length = t.size := by
  rw [solutionBookings, length_flatMap_eq_tally, size]

theorem Keeps.mem_solutionBookings (h : t.Keeps M) {b : Booking I} :
    b ∈ t.solutionBookings ↔ b ∈ M := by
  simp [solutionBookings, h.mem_bookingsOf]

theorem Keeps.nodup_solutionBookings (h : t.Keeps M) : t.solutionBookings.Nodup := by
  refine List.nodup_flatMap.2 ⟨fun c _ => (h.ascending_bookingsOf c).nodup, ?_⟩
  refine (List.nodup_finRange _).imp fun hne b hb hb' => hne ?_
  rw [← (h.mem_bookingsOf.1 hb).2, ← (h.mem_bookingsOf.1 hb').2]

/-- Bookings that are all in one exclusive set can be added one after another, in whichever order. -/
theorem exists_addAll_meetings (hI : I.Coherent) (hM : Exclusive M) {bs : List (Booking I)}
    (hnd : bs.Nodup) (hbs : ∀ b ∈ bs, b ∈ M) :
    ∃ u, (empty : Timetable I).addAll (bs.map meeting) = .ok u ∧ u.Represents bs.toFinset := by
  induction bs using List.reverseRecOn with
  | nil => exact ⟨empty, rfl, represents_empty⟩
  | append_singleton bs b ih =>
    obtain ⟨hnd, -, hdisj⟩ := List.nodup_append.1 hnd
    obtain ⟨u, hu, hrep⟩ := ih hnd fun x hx => hbs x (List.mem_append_left _ hx)
    have hfree : Free bs.toFinset b := by
      intro o ho hs
      rw [List.mem_toFinset] at ho
      exact hM b (hbs b (by simp)) o (hbs o (List.mem_append_left _ ho)) hs.symm
        (hdisj o ho b (List.mem_singleton_self b)).symm
    have hadd : u.add b.meeting = .ok (u.put b) :=
      add_eq_ok_iff.2 ⟨b, rfl, (hrep.clash?_eq_none_iff_free hI).2 hfree, rfl⟩
    have hset : (bs ++ [b]).toFinset = insert b bs.toFinset := by
      rw [List.toFinset_append, Finset.union_comm]
      rfl
    refine ⟨u.put b, ?_, hset ▸ hrep.put hfree⟩
    rw [addAll] at hu ⊢
    rw [List.map_append, List.foldlM_append, hu]
    exact bind_pure (u.add b.meeting) |>.trans hadd

/-- The meetings of a timetable in the order of their lines make it again. -/
theorem Represents.addAll_solutionBookings (h : t.Represents M) (hI : I.Coherent) :
    (empty : Timetable I).addAll (t.solutionBookings.map meeting) = .ok t := by
  obtain ⟨u, hu, hrep⟩ := exists_addAll_meetings hI h.exclusive h.nodup_solutionBookings
    fun b hb => h.mem_solutionBookings.1 hb
  have hset : t.solutionBookings.toFinset = M := Finset.ext fun b => by
    rw [List.mem_toFinset, h.mem_solutionBookings]
  rw [hset] at hrep
  rwa [hrep.toKeeps.unique h.toKeeps] at hu

theorem Represents.readsBack (h : t.Represents M) (hI : I.Coherent) (hn : Named I) (hs : Spelled I) :
    t.ReadsBack (t.solutionBookings.map fun b => (solutionLine b).toList) where
  lines_eq := by
    have hlines : ∀ l ∈ t.solutionLines, '\n' ∉ l.toList := by
      rw [solutionLines_eq]
      intro l hl
      obtain ⟨b, -, rfl⟩ := List.mem_map.1 hl
      exact lineFeed_notMem_solutionLine hs b
    rw [solutionText, lines_toList_unlines hlines, solutionLines_eq, List.map_map]
    rfl
  length_eq := by rw [List.length_map, length_solutionBookings]
  length_words := by
    intro l hl
    obtain ⟨b, -, rfl⟩ := List.mem_map.1 hl
    rw [words_solutionLine hs]
    rfl
  restored := by
    refine ⟨t.solutionBookings.map meeting, ?_, h.addAll_solutionBookings hI⟩
    rw [List.mapM_map]
    refine mapM_eq_some_map fun b _ => ?_
    rw [Function.comp_apply, ofLine?_solutionLine hn hs]

/-- What two timetables are read back from is the same when their texts are. -/
theorem ReadsBack.eq_of_solutionText {ls ls' : List (List Char)} (ht : t.ReadsBack ls)
    (hu : u.ReadsBack ls') (h : t.solutionText = u.solutionText) : t = u := by
  have hlines := ht.lines_eq.symm.trans ((congrArg (fun text => lines text.toList) h).trans hu.lines_eq)
  obtain rfl := List.append_cancel_right hlines
  obtain ⟨ms, hms, ht⟩ := ht.restored
  obtain ⟨ms', hms', hu⟩ := hu.restored
  obtain rfl : ms = ms' := Option.some.inj (hms.symm.trans hms')
  exact Except.ok.inj (ht.symm.trans hu)

/-- Where identifiers are words, a timetable that came about by changes is read back from its solution
    text, and two of them have one text just when they are equal. -/
theorem readsBack_ofEdits {r : Records} (h : r.resolve = .ok I) (hs : Spelled I) :
    (∀ es, ∃ ls, (ofEdits es : Timetable I).ReadsBack ls) ∧
      ∀ es es', (ofEdits es : Timetable I).solutionText = (ofEdits es' : Timetable I).solutionText ↔
        (ofEdits es : Timetable I) = ofEdits es' := by
  have hread : ∀ es, ∃ ls, (ofEdits es : Timetable I).ReadsBack ls := by
    intro es
    have hI := Records.coherent_of_resolve h
    obtain ⟨M, hM⟩ := exists_represents hI es
    exact ⟨_, hM.readsBack hI (named_of_resolve h) hs⟩
  refine ⟨hread, ?_⟩
  intro es es'
  constructor
  · obtain ⟨ls, ht⟩ := hread es
    obtain ⟨ls', hu⟩ := hread es'
    exact ht.eq_of_solutionText hu
  · exact congrArg solutionText

/-- The identifiers of the pair are words. Whichever of its two lectures comes first, the text is the
    same. -/
theorem readsBack_ofEdits_pair :
    (∃ ls, (ofEdits [.add ⟨1, 1, 0, 1⟩, .add ⟨0, 0, 0, 0⟩] : Timetable Instance.pair).ReadsBack ls) ∧
    (ofEdits [.add ⟨1, 1, 0, 1⟩, .add ⟨0, 0, 0, 0⟩] : Timetable Instance.pair).solutionText =
      (ofEdits [.add ⟨0, 0, 0, 0⟩, .add ⟨1, 1, 0, 1⟩] : Timetable Instance.pair).solutionText := by
  obtain ⟨hread, htext⟩ := readsBack_ofEdits Records.resolve_pair ⟨by decide, by decide⟩
  exact ⟨hread _, (htext _ _).2 (by decide)⟩

end Timetable

end Timetabling
