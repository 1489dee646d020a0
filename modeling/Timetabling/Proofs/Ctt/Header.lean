import Mathlib.Data.List.Forall2
import Mathlib.Data.List.Induction
import Timetabling.Ctt.Header

/-! What the lines of a header stand for. Each gives a value to a field, and the header that is read
    holds the last value of every field, whatever numbers the lines have. It goes as far as the first
    line with the title of a section, which is never the word of a field. -/

namespace Timetabling.Ctt

open Text

/-! ### Steps that succeed -/

theorem bind_eq_ok_iff {ε α β : Type} {x : Except ε α} {f : α → Except ε β} {b : β} :
    (x >>= f) = .ok b ↔ ∃ a, x = .ok a ∧ f a = .ok b := by
  cases x with
  | error e => simp [bind, Except.bind]
  | ok a => simp [bind, Except.bind]

theorem mapM_eq_ok_iff {ε α β : Type} {f : α → Except ε β} {xs : List α} {ys : List β} :
    xs.mapM f = .ok ys ↔ List.Forall₂ (fun x y => f x = .ok y) xs ys := by
  induction xs generalizing ys with
  | nil => simp [List.forall₂_nil_left_iff, pure, Except.pure, eq_comm]
  | cons x xs ih =>
    simp only [List.mapM_cons, bind_eq_ok_iff, ih, List.forall₂_cons_left_iff, pure, Except.pure,
      Except.ok.injEq]
    constructor
    · rintro ⟨y, hy, zs, hzs, rfl⟩
      exact ⟨y, zs, hy, hzs, rfl⟩
    · rintro ⟨y, zs, hy, hzs, rfl⟩
      exact ⟨y, hy, zs, hzs, rfl⟩

/-! ### Fields of the header -/

/-- The value of a field that counts something. -/
def count? (value : List Char) : Option Nat := unsigned? UInt64.size value

/-- The value of the field that gives the daily bounds: two counts. -/
def bounds? (value : List Char) : Option DailyBounds :=
  match (Text.words value).map count? with
  | [some least, some greatest] => some ⟨least, greatest⟩
  | _ => none

/-- Whether the text can be the value of the field. -/
def Key.accepts : Key → List Char → Bool
  | .name, _ => true
  | .daily, value => (bounds? value).isSome
  | _, value => (count? value).isSome

/-- The field that a line of the header gives, and its value. -/
def field? (text : List Char) : Option (Key × List Char) :=
  (cutAt? ':' text).bind fun (word, value) =>
    (Key.ofWord? (String.ofList (trim word))).map fun k => (k, trim value)

/-- The value that is given last to the field. -/
def lastValue? (fields : List (Key × List Char)) (k : Key) : Option (List Char) :=
  ((fields.filter fun f => f.1 = k).map Prod.snd).getLast?

namespace Header

/-- What a header with these fields declares: of each field the last value counts. -/
def ofFields (fields : List (Key × List Char)) : Header where
  name := (lastValue? fields .name).elim "" String.ofList
  courses := (lastValue? fields .courses).bind count?
  rooms := (lastValue? fields .rooms).bind count?
  days := (lastValue? fields .days).bind count?
  periods := (lastValue? fields .periods).bind count?
  curricula := (lastValue? fields .curricula).bind count?
  daily := (lastValue? fields .daily).bind bounds?
  unavailabilities := (lastValue? fields .unavailabilities).bind count?
  roomConstraints := (lastValue? fields .roomConstraints).bind count?

/-- The header with a value given to one of its fields. -/
def set (h : Header) (f : Key × List Char) : Header :=
  match f.1 with
  | .name => { h with name := String.ofList f.2 }
  | .courses => { h with courses := count? f.2 }
  | .rooms => { h with rooms := count? f.2 }
  | .days => { h with days := count? f.2 }
  | .periods => { h with periods := count? f.2 }
  | .curricula => { h with curricula := count? f.2 }
  | .daily => { h with daily := bounds? f.2 }
  | .unavailabilities => { h with unavailabilities := count? f.2 }
  | .roomConstraints => { h with roomConstraints := count? f.2 }

theorem lastValue?_concat (fields : List (Key × List Char)) (f : Key × List Char) (k : Key) :
    lastValue? (fields ++ [f]) k = if f.1 = k then some f.2 else lastValue? fields k := by
  by_cases h : f.1 = k <;> simp [lastValue?, h]

/-- Giving the values one after another leaves the last one of each field. -/
theorem foldl_set (fields : List (Key × List Char)) : fields.foldl set {} = ofFields fields := by
  induction fields using List.reverseRecOn with
  | nil => rfl
  | append_singleton fields f ih =>
    rw [List.foldl_append, List.foldl_cons, List.foldl_nil, ih]
    obtain ⟨k, value⟩ := f
    cases k <;> simp [set, ofFields, lastValue?_concat]

theorem count_eq_ok_iff {l : Line} {word : String} {value : List Char} {n : Nat} :
    count l word value = .ok n ↔ count? value = some n := by
  unfold count count?
  split <;> simp_all [Line.fail]

theorem bounds_eq_ok_iff {l : Line} {word : String} {value : List Char} {d : DailyBounds} :
    bounds l word value = .ok d ↔ bounds? value = some d := by
  unfold bounds bounds? count?
  split <;> simp_all [Line.fail]

theorem declare_eq_ok_iff {h h' : Header} {l : Line} {word : String} {value : List Char} :
    h.declare l word value = .ok h' ↔
      ∃ k, Key.ofWord? word = some k ∧ k.accepts value = true ∧ h.set (k, value) = h' := by
  unfold declare
  cases hk : Key.ofWord? word with
  | none => simp [Line.fail]
  | some k =>
    cases k <;> simp only [bind_eq_ok_iff, count_eq_ok_iff, bounds_eq_ok_iff, pure, Except.pure,
      Except.ok.injEq, Option.some.injEq, exists_eq_left', Key.accepts, set, true_and,
      Option.isSome_iff_exists]
    all_goals
      constructor
      · rintro ⟨n, hn, rfl⟩
        exact ⟨⟨n, hn⟩, by rw [hn]⟩
      · rintro ⟨⟨n, hn⟩, rfl⟩
        exact ⟨n, hn, by rw [hn]⟩

end Header

/-! ### The end of the header -/

/-- The line starts with the title of a section and a colon. -/
def Entitled (text : List Char) : Prop :=
  ∃ (s : Section) (rest : List Char), cutAt? ':' text = some (s.title.toList, rest)

theorem ofTitle?_isSome_iff {word : List Char} :
    (Section.ofTitle? word).isSome = true ↔ ∃ s : Section, s.title.toList = word := by
  simp only [Section.ofTitle?, List.find?_isSome, decide_eq_true_eq]
  constructor
  · rintro ⟨s, -, h⟩
    exact ⟨s, h⟩
  · rintro ⟨s, h⟩
    exact ⟨s, by cases s <;> decide, h⟩

/-- No title of a section is the word of a field. -/
theorem not_entitled_of_field? {text : List Char} {f : Key × List Char} (h : field? text = some f) :
    ¬Entitled text := by
  rintro ⟨s, rest, hcut⟩
  have hnone : Key.ofWord? (String.ofList (trim s.title.toList)) = none := by
    cases s <;> decide
  simp [field?, hcut, hnone] at h

theorem Header.declare_trim_eq_ok_iff {h h' : Header} {l : Line} {word value : List Char}
    (hcut : cutAt? ':' l.text = some (word, value)) :
    h.declare l (String.ofList (trim word)) (trim value) = .ok h' ↔
      ∃ f, field? l.text = some f ∧ f.1.accepts f.2 = true ∧ h.set f = h' := by
  rw [declare_eq_ok_iff, field?, hcut]
  simp only [Option.bind_some, Option.map_eq_some_iff]
  constructor
  · rintro ⟨k, hk, hvalue, rfl⟩
    exact ⟨_, ⟨k, hk, rfl⟩, hvalue, rfl⟩
  · rintro ⟨_, ⟨k, hk, rfl⟩, hvalue, rfl⟩
    exact ⟨k, hk, hvalue, rfl⟩

/-- A line that gives an accepted value to a field. -/
def Gives (l : Line) (f : Key × List Char) : Prop :=
  field? l.text = some f ∧ f.1.accepts f.2 = true

theorem forall₂_gives_iff {ls : List Line} {fields : List (Key × List Char)} :
    List.Forall₂ Gives ls fields ↔
      (∀ t ∈ ls.map Line.text, ∃ f, field? t = some f ∧ f.1.accepts f.2 = true) ∧
        (ls.map Line.text).filterMap field? = fields := by
  constructor
  · intro h
    induction h with
    | nil => simp
    | @cons l f ls fields hl _ ih =>
      rw [List.map_cons, List.forall_mem_cons, List.filterMap_cons_some hl.1, ih.2]
      exact ⟨⟨⟨f, hl⟩, ih.1⟩, rfl⟩
  · rintro ⟨h, rfl⟩
    induction ls with
    | nil => exact .nil
    | cons l ls ih =>
      obtain ⟨⟨f, hf⟩, hls⟩ := List.forall_mem_cons.1 h
      rw [List.map_cons, List.filterMap_cons_some hf.1]
      exact .cons hf (ih hls)

/-- Fields are read up to a line with the title of a section. -/
theorem Header.read_append {h : Header} {front rest : List Line} {fields : List (Key × List Char)}
    (hfields : List.Forall₂ Gives front fields) (hrest : ∀ l ∈ rest.head?, Entitled l.text) :
    h.read (front ++ rest) = .ok (fields.foldl set h, rest) := by
  induction hfields generalizing h with
  | nil =>
    cases rest with
    | nil => rfl
    | cons l ls =>
      obtain ⟨s, value, hcut⟩ := hrest l rfl
      have hword := ofTitle?_isSome_iff.2 ⟨s, rfl⟩
      simp only [List.nil_append, read, hcut, if_pos hword, List.foldl_nil]
  | @cons l f front fields hl _ ih =>
    cases hcut : cutAt? ':' l.text with
    | none => simp [Gives, field?, hcut] at hl
    | some cut =>
      obtain ⟨word, value⟩ := cut
      have hword : ¬(Section.ofTitle? word).isSome = true := by
        intro hsome
        obtain ⟨s, rfl⟩ := ofTitle?_isSome_iff.1 hsome
        exact not_entitled_of_field? hl.1 ⟨s, value, hcut⟩
      have hdeclare := (declare_trim_eq_ok_iff (h := h) hcut).2 ⟨f, hl.1, hl.2, rfl⟩
      simp only [List.cons_append, read, hcut, if_neg hword, bind_eq_ok_iff]
      exact ⟨_, hdeclare, ih⟩

/-- What is read as a header is a list of fields, up to a line with the title of a section. -/
theorem Header.exists_fields_of_read {h h' : Header} {ls rest : List Line}
    (hread : h.read ls = .ok (h', rest)) : ∃ front fields, ls = front ++ rest ∧
      List.Forall₂ Gives front fields ∧ fields.foldl set h = h' ∧
      ∀ l ∈ rest.head?, Entitled l.text := by
  induction ls generalizing h with
  | nil =>
    obtain ⟨rfl, rfl⟩ := Prod.mk.inj (Except.ok.inj hread)
    exact ⟨[], [], rfl, .nil, rfl, by simp⟩
  | cons l ls ih =>
    cases hcut : cutAt? ':' l.text with
    | none => simp [read, hcut, Line.fail] at hread
    | some cut =>
      obtain ⟨word, value⟩ := cut
      simp only [read, hcut] at hread
      split at hread
      · rename_i hword
        obtain ⟨rfl, rfl⟩ := Prod.mk.inj (Except.ok.inj hread)
        obtain ⟨s, rfl⟩ := ofTitle?_isSome_iff.1 hword
        exact ⟨[], [], rfl, .nil, rfl, by simpa using ⟨s, value, hcut⟩⟩
      · obtain ⟨h₁, hdeclare, hread⟩ := bind_eq_ok_iff.1 hread
        obtain ⟨f, hf, hvalue, rfl⟩ := (declare_trim_eq_ok_iff hcut).1 hdeclare
        obtain ⟨front, fields, rfl, hfields, hset, htitle⟩ := ih hread
        exact ⟨l :: front, f :: fields, rfl, .cons ⟨hf, hvalue⟩ hfields, hset, htitle⟩

end Timetabling.Ctt
