import Mathlib.Logic.Relation
import Timetabling.Proofs.Ctt.Outline

/-! Changes of the layout of a text: blank lines, blanks around lines and between the fields of
    records, what follows the end, the order of blocks and their division. No such change is seen in
    the sheet of the text. Main statement: of two texts that come from one another by changes of the
    layout either both are read, as the same instance, or none. -/

namespace Timetabling.Ctt

open Text

/-- Some line titles a section. -/
def Titled (ls : List (List Char)) : Prop := ∃ s : Section, s.heading ∈ content ls

/-- One change of the layout, in a text given by its lines. Blocks change places only where their
    sections differ: within a section the records keep their order. -/
inductive Relaid : List (List Char) → List (List Char) → Prop
  /-- A blank line is put in. -/
  | blank {front rest : List (List Char)} {l : List Char} (hl : Blank l) :
      Relaid (front ++ rest) (front ++ l :: rest)
  /-- Blanks are put around a line, such as a carriage return at its end. -/
  | padded {front rest : List (List Char)} {p l q : List Char} (hp : Blank p) (hq : Blank q) :
      Relaid (front ++ l :: rest) (front ++ (p ++ (l ++ q)) :: rest)
  /-- A run of blanks in a line below a title is replaced by another one. -/
  | spaced {front rest : List (List Char)} {a g g' b : List Char} (hfront : Titled front)
      (hg : Blank g) (hne : g ≠ []) (hg' : Blank g') (hne' : g' ≠ []) :
      Relaid (front ++ (a ++ (g ++ b)) :: rest) (front ++ (a ++ (g' ++ b)) :: rest)
  /-- What follows the line that closes the sections is replaced. -/
  | ended {front rest rest' : List (List Char)} {l : List Char} (hfront : Titled front)
      (hl : trim l = Body.endMark) : Relaid (front ++ l :: rest) (front ++ l :: rest')
  /-- Two blocks of different sections change places; what follows them is no part of a block. -/
  | swapped {front x y rest : List (List Char)} {b c : Block} (hx : content x = b.lines)
      (hy : content y = c.lines) (hne : b.part ≠ c.part)
      (hrest : ∀ t ∈ (content rest).head?, ¬IsInner t) :
      Relaid (front ++ (x ++ (y ++ rest))) (front ++ (y ++ (x ++ rest)))
  /-- A block is divided by a line that repeats its title. -/
  | divided {front x rest : List (List Char)} {b : Block} {l : List Char} (hx : content x = b.lines)
      (hl : trim l = b.part.heading) : Relaid (front ++ (x ++ rest)) (front ++ (x ++ l :: rest))

/-! ### Scans of changed lines -/

namespace Scan

variable {x : Scan} {t u : List Char}

/-- Below a title a line counts by its words. -/
theorem take_congr (hx : x.current.isSome = true) (h : words t = words u) :
    x.take (trim t) = x.take (trim u) := by
  obtain ⟨s, hs⟩ := Option.isSome_iff_exists.1 hx
  have htitle : Body.title? (trim t) = Body.title? (trim u) :=
    Option.ext fun s => by rw [title?_trim_eq_some_iff, title?_trim_eq_some_iff, h]
  have hend : trim t = Body.endMark ↔ trim u = Body.endMark := by
    rw [trim_eq_endMark_iff, trim_eq_endMark_iff, h]
  rw [take, take, htitle, hs]
  cases Body.title? (trim u) with
  | some s' => rfl
  | none => simp only [hend, words_trim, h]

theorem isSome_current_take (hx : x.current.isSome = true) (t : List Char) :
    (x.take t).current.isSome = true := by
  obtain ⟨s, hs⟩ := Option.isSome_iff_exists.1 hx
  rw [take]
  split
  · exact hx
  · rw [hs]
    cases Body.title? t with
    | some s' => rfl
    | none =>
      dsimp only
      split <;> rfl

/-- Below a title there is a section that was titled last. -/
theorem isSome_current_foldl (ts : List (List Char)) :
    (ts.foldl take .start).current.isSome = true ∨
      (ts.foldl take .start).ended = false ∧ ∀ s : Section, s.heading ∉ ts := by
  induction ts using List.reverseRecOn with
  | nil => exact .inr ⟨rfl, by simp⟩
  | append_singleton ts t ih =>
    rw [List.foldl_append, List.foldl_cons, List.foldl_nil]
    rcases ih with hx | ⟨hended, hts⟩
    · exact .inl (isSome_current_take hx t)
    · cases ht : Body.title? t with
      | some s => exact .inl (by rw [take_title hended ht, Option.isSome_some])
      | none =>
        cases hx : (ts.foldl take .start).current with
        | some s => exact .inl (isSome_current_take (by rw [hx, Option.isSome_some]) t)
        | none =>
          refine .inr ⟨by rw [take_field hended hx ht], ?_⟩
          intro s hs
          rcases List.mem_append.1 hs with hs | hs
          · exact hts s hs
          · obtain rfl := List.mem_singleton.1 hs
            simp [title?_heading] at ht

theorem isSome_current_of_titled {ls : List (List Char)} (h : Titled ls) :
    ((content ls).foldl take .start).current.isSome = true := by
  obtain ⟨s, hs⟩ := h
  exact (isSome_current_foldl _).resolve_right fun hnone => hnone.2 s hs

/-- Whatever follows the end of the text, it is not taken in. -/
theorem foldl_take_endMark (hx : x.current.isSome = true) (ts : List (List Char)) :
    ((Body.endMark :: ts).foldl take x).sheet = x.sheet := by
  rw [List.foldl_cons]
  by_cases hended : x.ended = true
  · rw [take, if_pos hended, foldl_take_of_ended hended]
  · obtain ⟨s, hs⟩ := Option.isSome_iff_exists.1 hx
    rw [take_endMark (by simpa using hended) hs, foldl_take_of_ended rfl]

/-- What follows a block counts alike whatever the section of the block was. -/
theorem sheet_foldl_congr {sh : Sheet} {s s' : Section} {ts : List (List Char)}
    (hts : ∀ t ∈ ts.head?, ¬IsInner t) :
    (ts.foldl take ⟨sh, some s, false⟩).sheet = (ts.foldl take ⟨sh, some s', false⟩).sheet := by
  cases ts with
  | nil => rfl
  | cons t ts =>
    by_cases hend : t = Body.endMark
    · rw [hend, foldl_take_endMark rfl, foldl_take_endMark rfl]
    · cases ht : Body.title? t with
      | some _ => rw [List.foldl_cons, List.foldl_cons, take_title rfl ht, take_title rfl ht]
      | none => exact absurd ⟨ht, hend⟩ (hts t rfl)

end Scan

/-! ### Reading changed texts -/

/-- No change of the layout is seen in the sheet. -/
theorem ofLines_eq_of_relaid {ls ls' : List (List Char)} (h : Relaid ls ls') :
    Sheet.ofLines ls = Sheet.ofLines ls' := by
  cases h with
  | @blank front rest l hl =>
    rw [Sheet.ofLines, Sheet.ofLines, content_append, content_append, content_cons_of_blank hl]
  | @padded front rest p l q hp hq =>
    rw [Sheet.ofLines, Sheet.ofLines, content_append, content_append, content_padded hp hq]
  | @spaced front rest a g g' b hfront hg hne hg' hne' =>
    -- below a title a line counts by its words, and blank lines not at all
    have hwords : words (a ++ (g ++ b)) = words (a ++ (g' ++ b)) := by
      rw [hg.words_append_append hne, hg'.words_append_append hne']
    rw [Sheet.ofLines, Sheet.ofLines, content_append, content_append]
    by_cases hblank : Blank (a ++ (g ++ b))
    · have hblank' : Blank (a ++ (g' ++ b)) := by rwa [← words_eq_nil_iff, ← hwords, words_eq_nil_iff]
      rw [content_cons_of_blank hblank, content_cons_of_blank hblank']
    · have hblank' : ¬Blank (a ++ (g' ++ b)) := by rwa [← words_eq_nil_iff, ← hwords, words_eq_nil_iff]
      rw [content_cons hblank, content_cons hblank', List.foldl_append, List.foldl_append,
        List.foldl_cons, List.foldl_cons,
        Scan.take_congr (Scan.isSome_current_of_titled hfront) hwords]
  | @ended front rest rest' l hfront hl =>
    have hblank : ¬Blank l := by
      rw [← trim_eq_nil_iff, hl]
      exact word_endMark.ne_nil
    have hx := Scan.isSome_current_of_titled hfront
    rw [Sheet.ofLines, Sheet.ofLines, content_append, content_append, content_cons hblank,
      content_cons hblank, hl, List.foldl_append, List.foldl_append, Scan.foldl_take_endMark hx,
      Scan.foldl_take_endMark hx]
  | @swapped front x y rest b c hx hy hne hrest =>
    simp only [Sheet.ofLines, content_append, hx, hy, List.foldl_append]
    generalize (content front).foldl Scan.take .start = z
    by_cases hz : z.ended = true
    · simp only [Scan.foldl_take_of_ended hz]
    · rw [Bool.not_eq_true] at hz
      rw [foldl_take_block hz, foldl_take_block rfl, foldl_take_block hz, foldl_take_block rfl,
        Sheet.addBlock_comm _ hne]
      -- the block that comes last is another one, but no line that follows belongs to it
      exact Scan.sheet_foldl_congr hrest
  | @divided front x rest b l hx hl =>
    have hblank : ¬Blank l := by
      rw [← trim_eq_nil_iff, hl]
      exact (word_heading b.part).ne_nil
    simp only [Sheet.ofLines, content_append, content_cons hblank, hx, hl, List.foldl_append,
      List.foldl_cons]
    generalize (content front).foldl Scan.take .start = z
    by_cases hz : z.ended = true
    · rw [Scan.foldl_take_of_ended hz, Scan.take, if_pos hz]
    · rw [Bool.not_eq_true] at hz
      rw [foldl_take_block hz, Scan.take_title rfl (title?_heading b.part), Sheet.addTitle_addBlock]

theorem ofLines_eq_of_eqvGen {ls ls' : List (List Char)} (h : Relation.EqvGen Relaid ls ls') :
    Sheet.ofLines ls = Sheet.ofLines ls' := by
  induction h with
  | rel _ _ h => exact ofLines_eq_of_relaid h
  | refl => rfl
  | symm _ _ _ ih => exact ih.symm
  | trans _ _ _ _ _ ih ih' => exact ih.trans ih'

/-- Of two texts that come from one another by changes of the layout either both are read, as the same
    instance, or none. -/
theorem read_eq_ok_iff_of_relaid {text text' : List Char}
    (h : Relation.EqvGen Relaid (lines text) (lines text')) (I : Instance) :
    read text = .ok I ↔ read text' = .ok I := by
  rw [read_eq_ok_iff, read_eq_ok_iff, ofLines_eq_of_eqvGen h]

/-- The text of the pair with all courses above the rooms and nothing below the end. -/
def tidyPairText : List Char := ['\n'].intercalate <| List.map String.toList
  ["Days: 3", "Periods_per_day: 1", "Courses: 2", "Days: 2", "", "COURSES:",
    "algebra noether 1 1 20", "COURSES:", "  optics  meitner 1 1 20 0", "ROOMS:", "hall 30 0",
    "attic 10", "CURRICULA:", "physics 2 algebra optics", "UNAVAILABILITY_CONSTRAINTS:",
    "optics 0 0", "ROOM_CONSTRAINTS:", "algebra attic", "END."]

theorem relaid_pairText : Relation.EqvGen Relaid (lines pairText) (lines tidyPairText) := by
  let rooms : Block := ⟨.rooms, ["hall 30 0".toList, "attic 10".toList], by decide +kernel⟩
  let courses : Block := ⟨.courses, ["optics  meitner 1 1 20 0".toList], by decide +kernel⟩
  have hrooms : content (((lines pairText).drop 7).take 3) = rooms.lines := by decide +kernel
  have hcourses : content (((lines pairText).drop 10).take 2) = courses.lines := by decide +kernel
  have hswapped := @Relaid.swapped ((lines pairText).take 7) _ _ ((lines pairText).drop 12) _ _
    hrooms hcourses (by decide) (by decide +kernel)
  have hended := @Relaid.ended ((lines tidyPairText).take 18) ["algebra hall".toList] []
    "END.".toList ⟨.courses, by decide +kernel⟩ (by decide +kernel)
  have hfirst : (lines pairText).take 7 ++ (((lines pairText).drop 7).take 3 ++
      (((lines pairText).drop 10).take 2 ++ (lines pairText).drop 12)) = lines pairText := by
    decide +kernel
  have hbetween : (lines pairText).take 7 ++ (((lines pairText).drop 10).take 2 ++
      (((lines pairText).drop 7).take 3 ++ (lines pairText).drop 12)) =
        (lines tidyPairText).take 18 ++ ["END.".toList, "algebra hall".toList] := by
    decide +kernel
  have hlast : (lines tidyPairText).take 18 ++ ["END.".toList] = lines tidyPairText := by
    decide +kernel
  rw [hfirst, hbetween] at hswapped
  rw [hlast] at hended
  exact .trans _ _ _ (.rel _ _ hswapped) (.rel _ _ hended)

/-- The tidy text is read as the pair, for the other one is. -/
theorem read_eq_ok_iff_of_relaid_pair :
    Relation.EqvGen Relaid (lines pairText) (lines tidyPairText) ∧ read tidyPairText = .ok .pair :=
  ⟨relaid_pairText, (read_eq_ok_iff_of_relaid relaid_pairText .pair).1 read_pairText⟩

end Timetabling.Ctt
