import Timetabling.Proofs.Ctt.Reading
import Timetabling.Proofs.Instance.Coherence

/-! The outline of a text: the lines above the first section title, then block after block, each a title
    with the lines below it, up to a line `END.` that closes the text. Every text has one, and its
    sheet is read off the outline, so that no line is left out and none counts for another section.
    Main statement: where a text is read, its outline accounts for the instance line by line. -/

namespace Timetabling.Ctt

open Text

/-- A line that titles no section and does not close the text. -/
structure IsInner (text : List Char) : Prop where
  title : Body.title? text = none
  endMark : text ≠ Body.endMark

instance (text : List Char) : Decidable (IsInner text) :=
  decidable_of_iff (Body.title? text = none ∧ text ≠ Body.endMark)
    ⟨fun h => ⟨h.1, h.2⟩, fun h => ⟨h.title, h.endMark⟩⟩

/-- A title of a section and the lines below it. -/
structure Block where
  part : Section
  body : List (List Char)
  inner : ∀ t ∈ body, IsInner t

/-- The lines of a block. -/
def Block.lines (b : Block) : List (List Char) := b.part.heading :: b.body

/-- A header and the blocks below it. -/
structure Outline where
  header : List (List Char)
  blocks : List Block

namespace Outline

/-- The lines of a header and of blocks. -/
def lines (o : Outline) : List (List Char) := o.header ++ o.blocks.flatMap Block.lines

/-- The outline is that of the text: its lines are those of the text, blank lines and the blanks at the
    ends of lines left aside, up to a line `END.` below some title. -/
structure Of (o : Outline) (text : List Char) : Prop where
  header : ∀ t ∈ o.header, Body.title? t = none
  lines : content (Text.lines text) = o.lines ∨
    o.blocks ≠ [] ∧ ∃ rest, content (Text.lines text) = o.lines ++ Body.endMark :: rest

/-- The records in all blocks of a section, cut into fields, in the order of the text. -/
def recordsOf (o : Outline) (s : Section) : List (List (List Char)) :=
  (o.blocks.filter fun b => b.part = s).flatMap fun b => b.body.map words

/-- The sheet of an outline: a section is there if a block has its title. -/
def sheet (o : Outline) : Sheet where
  header := o.header
  sections s := if s ∈ o.blocks.map Block.part then some (o.recordsOf s) else none

end Outline

/-! ### The sheet of an outline -/

namespace Sheet

/-- The sheet with a section that is titled, once more perhaps, and has these lines below. -/
def addBlock (sh : Sheet) (s : Section) (body : List (List Char)) : Sheet :=
  { sh with sections := Function.update sh.sections s (some (sh.recordsOf s ++ body.map words)) }

theorem addBlock_nil (sh : Sheet) (s : Section) : sh.addBlock s [] = sh.addTitle s := by
  simp [addBlock, addTitle]

theorem addRecord_addBlock (sh : Sheet) (s : Section) (body : List (List Char)) (t : List Char) :
    (sh.addBlock s body).addRecord s (words t) = sh.addBlock s (body ++ [t]) := by
  simp [addBlock, addRecord, recordsOf]

/-- Repeating the title of a section in it changes nothing. -/
theorem addTitle_addBlock (sh : Sheet) (s : Section) (body : List (List Char)) :
    (sh.addBlock s body).addTitle s = sh.addBlock s body := by
  simp [addBlock, addTitle, recordsOf]

/-- Blocks of different sections say the same in either order. -/
theorem addBlock_comm (sh : Sheet) {s s' : Section} (h : s ≠ s') (body body' : List (List Char)) :
    (sh.addBlock s body).addBlock s' body' = (sh.addBlock s' body').addBlock s body := by
  simp [addBlock, recordsOf, h, h.symm, Function.update_comm h]

end Sheet

/-- A block is taken in as a whole. -/
theorem foldl_take_block {x : Scan} (hx : x.ended = false) (b : Block) :
    b.lines.foldl Scan.take x = ⟨x.sheet.addBlock b.part b.body, some b.part, false⟩ := by
  obtain ⟨s, body, hbody⟩ := b
  rw [Block.lines, List.foldl_cons, Scan.take_title hx (title?_heading s)]
  induction body using List.reverseRecOn with
  | nil => rw [List.foldl_nil, Sheet.addBlock_nil]
  | append_singleton body t ih =>
    have ht := hbody t (by simp)
    rw [List.foldl_append, ih fun t' ht' => hbody t' (List.mem_append_left _ ht'), List.foldl_cons,
      Scan.take_record rfl rfl ht.title ht.endMark, Sheet.addRecord_addBlock, List.foldl_nil]

namespace Outline

theorem sheet_nil (header : List (List Char)) :
    Outline.sheet ⟨header, []⟩ = ⟨header, fun _ => none⟩ := by
  simp [sheet]

theorem recordsOf_sheet (o : Outline) (s : Section) : o.sheet.recordsOf s = o.recordsOf s := by
  by_cases hs : s ∈ o.blocks.map Block.part
  · simp only [Sheet.recordsOf, sheet, if_pos hs, Option.getD_some]
  · have hnone : o.blocks.filter (fun b => b.part = s) = [] := by
      simpa [List.filter_eq_nil_iff] using hs
    simp only [Sheet.recordsOf, sheet, if_neg hs, Option.getD_none, recordsOf, hnone,
      List.flatMap_nil]

theorem sheet_concat (header : List (List Char)) (bs : List Block) (b : Block) :
    Outline.sheet ⟨header, bs ++ [b]⟩ = (Outline.sheet ⟨header, bs⟩).addBlock b.part b.body := by
  refine congrArg (Sheet.mk header) (funext fun s => ?_)
  rw [recordsOf_sheet]
  by_cases hs : s = b.part
  · simp [recordsOf, hs]
  · simp [sheet, recordsOf, hs, Ne.symm hs]

/-- The lines of an outline are taken in as its sheet. -/
theorem foldl_take_lines {o : Outline} (h : ∀ t ∈ o.header, Body.title? t = none) :
    o.lines.foldl Scan.take .start = ⟨o.sheet, o.blocks.getLast?.map Block.part, false⟩ := by
  obtain ⟨header, bs⟩ := o
  rw [lines, List.foldl_append, foldl_take_header h]
  clear h
  induction bs using List.reverseRecOn with
  | nil => rw [sheet_nil]; rfl
  | append_singleton bs b ih =>
    rw [List.flatMap_append, List.foldl_append, ih, List.flatMap_singleton, foldl_take_block rfl,
      sheet_concat, List.getLast?_concat]
    rfl

/-- A text has the sheet of its outline. -/
theorem Of.ofLines_eq {o : Outline} {text : List Char} (h : o.Of text) :
    Sheet.ofLines (Text.lines text) = o.sheet := by
  have hlines := foldl_take_lines h.header
  rw [Sheet.ofLines]
  rcases h.lines with htext | ⟨hne, rest, htext⟩
  · rw [htext, hlines]
  · rw [List.getLast?_eq_getLast_of_ne_nil hne, Option.map_some] at hlines
    rw [htext, List.foldl_append, hlines, List.foldl_cons, Scan.take_endMark rfl rfl,
      Scan.foldl_take_of_ended rfl]

end Outline

/-! ### Finding the outline -/

/-- Lines below a title are the rest of its block and further blocks, up to a line `END.`. -/
theorem exists_blocks (ts : List (List Char)) : ∃ (body : List (List Char)) (bs : List Block),
    (∀ t ∈ body, IsInner t) ∧ (ts = body ++ bs.flatMap Block.lines ∨
      ∃ rest, ts = body ++ bs.flatMap Block.lines ++ Body.endMark :: rest) := by
  -- from the last line upwards: a title makes a block of the lines gathered below it
  induction ts with
  | nil => exact ⟨[], [], by simp, .inl rfl⟩
  | cons t ts ih =>
    by_cases hend : t = Body.endMark
    · exact ⟨[], [], by simp, .inr ⟨ts, by rw [hend]; rfl⟩⟩
    · obtain ⟨body, bs, hbody, hts⟩ := ih
      cases ht : Body.title? t with
      | some s =>
        obtain rfl : s.heading = t := title?_eq_some_iff.1 ht
        refine ⟨[], ⟨s, body, hbody⟩ :: bs, by simp, ?_⟩
        rcases hts with rfl | ⟨rest, rfl⟩
        · exact .inl (by simp [Block.lines])
        · exact .inr ⟨rest, by simp [Block.lines]⟩
      | none =>
        refine ⟨t :: body, bs, List.forall_mem_cons.2 ⟨⟨ht, hend⟩, hbody⟩, ?_⟩
        rcases hts with rfl | ⟨rest, rfl⟩
        · exact .inl rfl
        · exact .inr ⟨rest, rfl⟩

/-- Every text has an outline. -/
theorem exists_outline (text : List Char) : ∃ o : Outline, o.Of text := by
  have htexts : ∀ ts : List (List Char), ∃ o : Outline, (∀ t ∈ o.header, Body.title? t = none) ∧
      (ts = o.lines ∨ o.blocks ≠ [] ∧ ∃ rest, ts = o.lines ++ Body.endMark :: rest) := by
    intro ts
    induction ts with
    | nil => exact ⟨⟨[], []⟩, by simp, .inl rfl⟩
    | cons t ts ih =>
      cases ht : Body.title? t with
      | some s =>
        obtain rfl : s.heading = t := title?_eq_some_iff.1 ht
        obtain ⟨body, bs, hbody, hts⟩ := exists_blocks ts
        refine ⟨⟨[], ⟨s, body, hbody⟩ :: bs⟩, by simp, ?_⟩
        rcases hts with rfl | ⟨rest, rfl⟩
        · exact .inl (by simp [Outline.lines, Block.lines])
        · exact .inr ⟨by simp, rest, by simp [Outline.lines, Block.lines]⟩
      | none =>
        obtain ⟨⟨header, bs⟩, hheader, hts⟩ := ih
        refine ⟨⟨t :: header, bs⟩, List.forall_mem_cons.2 ⟨ht, hheader⟩, ?_⟩
        rcases hts with rfl | ⟨hne, rest, rfl⟩
        · exact .inl rfl
        · exact .inr ⟨hne, rest, rfl⟩
  obtain ⟨o, hheader, hlines⟩ := htexts (content (lines text))
  exact ⟨o, hheader, hlines⟩

/-! ### What is read -/

/-- The outline accounts for the instance: its header and the lines of its blocks, one by one, are the
    records that the instance is resolved from, and the instance has the grid and the numbers of
    courses, rooms and curricula that the header declares. -/
structure Outline.Accounts (o : Outline) (r : Records) (I : Instance) : Prop where
  lists : o.sheet.Lists r
  resolve : r.resolve = .ok I
  days : o.sheet.head.days = some I.days
  periods : o.sheet.head.periods = some I.periods
  courses : ∀ n, o.sheet.head.courses = some n → I.courses.size = n
  rooms : ∀ n, o.sheet.head.rooms = some n → I.rooms.size = n
  curricula : ∀ n, o.sheet.head.curricula = some n → I.curricula.size = n

/-- Where a text is read as an instance, its outline accounts for the instance. -/
theorem exists_outline_of_read {text : List Char} {I : Instance} (h : read text = .ok I) :
    ∃ (o : Outline) (r : Records), o.Of text ∧ o.Accounts r I := by
  obtain ⟨o, ho⟩ := exists_outline text
  obtain ⟨r, hr, hI⟩ := read_eq_ok_iff.1 h
  rw [ho.ofLines_eq] at hr
  have hdescribes := (Records.describes_of_resolve hI).1
  have hrooms : I.rooms.size = r.rooms.length := by
    rw [← hdescribes.rooms, Array.length_toList]
  refine ⟨o, r, ho, hr, hI, ?_, ?_, ?_, ?_, ?_⟩
  · rw [hdescribes.grid.1, hr.days]
  · rw [hdescribes.grid.2, hr.periods]
  · intro n hn
    rw [hr.counted .courses n hn, hdescribes.size_courses, hr.courses.length_eq]
  · intro n hn
    rw [hr.counted .rooms n hn, hrooms, hr.rooms.length_eq]
  · intro n hn
    rw [hr.counted .curricula n hn, hdescribes.size_curricula, hr.curricula.length_eq]

/-- The pair in a text whose courses stand in two blocks, with the days declared twice and something
    below the end. -/
def pairText : List Char := ['\n'].intercalate <| List.map String.toList
  ["Days: 3", "Periods_per_day: 1", "Courses: 2", "Days: 2", "", "COURSES:", "algebra noether 1 1 20",
    "ROOMS:", "hall 30 0", "attic 10", "COURSES:", "  optics  meitner 1 1 20 0", "CURRICULA:",
    "physics 2 algebra optics", "UNAVAILABILITY_CONSTRAINTS:", "optics 0 0", "ROOM_CONSTRAINTS:",
    "algebra attic", "END.", "algebra hall"]

theorem read_pairText : read pairText = .ok .pair :=
  bind_eq_ok_iff.2 ⟨.pair, by decide +kernel, congrArg _ Records.resolve_pair⟩

/-- The text of the pair is read, and its outline accounts for the pair. -/
theorem exists_outline_of_read_pair : read pairText = .ok .pair ∧
    ∃ (o : Outline) (r : Records), o.Of pairText ∧ o.Accounts r .pair :=
  ⟨read_pairText, exists_outline_of_read read_pairText⟩

end Timetabling.Ctt
