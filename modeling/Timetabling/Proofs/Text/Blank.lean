import Mathlib.Data.List.DropRight
import Timetabling.Text.Blank

/-! What the cuts of a text at its blanks leave. Blanks around a text change neither its words nor the
    text without them, a run of blanks between two texts keeps their words apart whatever its length,
    and a text of one word is that word between blanks. -/

namespace Timetabling.Text

/-- A run of blanks, which may be empty. -/
def Blank (cs : List Char) : Prop := ∀ c ∈ cs, isBlank c = true

/-- A run of characters that are no blanks, which is not empty. -/
structure Word (cs : List Char) : Prop where
  ne_nil : cs ≠ []
  not_blank : ∀ c ∈ cs, isBlank c = false

instance (cs : List Char) : Decidable (Blank cs) :=
  decidable_of_iff (cs.all isBlank = true) List.all_eq_true

instance (cs : List Char) : Decidable (Word cs) :=
  decidable_of_iff (cs ≠ [] ∧ (cs.all fun c => !isBlank c) = true)
    ⟨fun h => ⟨h.1, by simpa using h.2⟩, fun h => ⟨h.1, by simpa using h.2⟩⟩

variable {cs ds p q w : List Char} {c : Char}

/-! ### Words -/

@[simp]
theorem words_nil : words [] = [] := by simp [words]

/-- A blank parts the words before it from those after it. -/
theorem words_append_cons (cs ds : List Char) (hc : isBlank c = true) :
    words (cs ++ c :: ds) = words cs ++ words ds := by
  rw [words, List.splitOnP_append_cons cs ds hc, List.filter_append]
  rfl

theorem words_cons (ds : List Char) (hc : isBlank c = true) : words (c :: ds) = words ds := by
  simpa using words_append_cons [] ds hc

theorem Blank.words_append (hp : Blank p) (cs : List Char) : words (p ++ cs) = words cs := by
  induction p with
  | nil => rfl
  | cons c p ih =>
    rw [List.cons_append, words_cons _ (hp c (List.mem_cons_self ..))]
    exact ih fun d hd => hp d (List.mem_cons_of_mem _ hd)

theorem Blank.words_eq_nil (hp : Blank p) : words p = [] := by
  simpa using hp.words_append []

/-- A run of blanks parts the words before it from those after it. -/
theorem Blank.words_append_append (hp : Blank p) (hne : p ≠ []) (cs ds : List Char) :
    words (cs ++ (p ++ ds)) = words cs ++ words ds := by
  obtain ⟨c, p, rfl⟩ := List.exists_cons_of_ne_nil hne
  have hrest : Blank p := fun d hd => hp d (List.mem_cons_of_mem _ hd)
  rw [List.cons_append, words_append_cons _ _ (hp c (List.mem_cons_self ..)), hrest.words_append]

theorem Blank.append_words (hq : Blank q) (cs : List Char) : words (cs ++ q) = words cs := by
  rcases eq_or_ne q [] with rfl | hne
  · rw [List.append_nil]
  · simpa using hq.words_append_append hne cs []

theorem Word.words_eq (hw : Word w) : words w = [w] := by
  rw [words, List.splitOnP_eq_singleton hw.not_blank]
  simp [hw.ne_nil]

/-- Words with single blanks between them. -/
def unwords (ws : List (List Char)) : List Char := [' '].intercalate ws

theorem unwords_cons_cons (w v : List Char) (ws : List (List Char)) :
    unwords (w :: v :: ws) = w ++ ([' '] ++ unwords (v :: ws)) := by
  rw [unwords, List.intercalate_cons_cons, List.append_assoc, unwords]

/-- Words with single blanks between them are found again. -/
theorem words_unwords {ws : List (List Char)} (hws : ∀ w ∈ ws, Word w) : words (unwords ws) = ws := by
  induction ws with
  | nil => exact words_nil
  | cons w ws ih =>
    have hw := (hws w (List.mem_cons_self ..)).words_eq
    have hrest := ih fun v hv => hws v (List.mem_cons_of_mem _ hv)
    cases ws with
    | nil => simpa [unwords] using hw
    | cons v ws =>
      have hblank : Blank [' '] := by decide
      rw [unwords_cons_cons, hblank.words_append_append (by simp), hw, hrest]
      rfl

theorem Word.not_mem (hw : Word w) (hc : isBlank c = true) : c ∉ w := fun hmem => by
  simp [hw.not_blank c hmem] at hc

/-- A blank other than the one put between words is not in them. -/
theorem not_mem_unwords {ws : List (List Char)} (hws : ∀ w ∈ ws, Word w) (hc : isBlank c = true)
    (hne : c ≠ ' ') : c ∉ unwords ws := by
  induction ws with
  | nil => exact List.not_mem_nil
  | cons w ws ih =>
    have hw := (hws w (List.mem_cons_self ..)).not_mem hc
    have hrest := ih fun v hv => hws v (List.mem_cons_of_mem _ hv)
    cases ws with
    | nil => simpa [unwords] using hw
    | cons v ws =>
      rw [unwords_cons_cons]
      simp [hw, hrest, hne]

/-- The words are all that is no blank. -/
theorem flatten_words (cs : List Char) : (words cs).flatten = cs.filter fun c => !isBlank c := by
  rw [words, List.flatten_filter_not_isEmpty]
  induction cs with
  | nil => simp
  | cons c cs ih =>
    obtain ⟨ds, es, h⟩ := List.exists_cons_of_ne_nil (List.splitOnP_ne_nil isBlank cs)
    rw [List.splitOnP_cons_eq_if_modifyHead]
    cases hc : isBlank c with
    | true => simpa [hc] using ih
    | false => simpa [hc, h] using ih

theorem words_eq_nil_iff : words cs = [] ↔ Blank cs := by
  refine ⟨?_, Blank.words_eq_nil⟩
  intro h
  have hfilter : cs.filter (fun c => !isBlank c) = [] := by rw [← flatten_words, h, List.flatten_nil]
  simpa [Blank, List.filter_eq_nil_iff] using hfilter

/-! ### Texts without blanks at their ends -/

theorem trim_eq (cs : List Char) : trim cs = (cs.dropWhile isBlank).rdropWhile isBlank := rfl

/-- A text is what `trim` leaves of it, between blanks. -/
theorem exists_trim (cs : List Char) : ∃ p q, Blank p ∧ Blank q ∧ cs = p ++ (trim cs ++ q) := by
  refine ⟨cs.takeWhile isBlank, (cs.dropWhile isBlank).rtakeWhile isBlank,
    fun c hc => List.mem_takeWhile_imp hc, fun c hc => List.mem_rtakeWhile_imp hc, ?_⟩
  rw [trim_eq, List.rdropWhile_append_rtakeWhile, List.takeWhile_append_dropWhile]

theorem words_trim (cs : List Char) : words (trim cs) = words cs := by
  obtain ⟨p, q, hp, hq, h⟩ := exists_trim cs
  conv_rhs => rw [h, hp.words_append, hq.append_words]

theorem trim_eq_nil_iff : trim cs = [] ↔ Blank cs := by
  constructor
  · intro h
    rw [← words_eq_nil_iff, ← words_trim, h, words_nil]
  · intro h
    rw [trim_eq, List.dropWhile_eq_nil_iff.2 h, List.rdropWhile_nil]

theorem Blank.trim_append (hp : Blank p) (cs : List Char) : trim (p ++ cs) = trim cs := by
  rw [trim_eq, List.dropWhile_append_of_pos hp, trim_eq]

theorem Blank.append_trim (hq : Blank q) (cs : List Char) : trim (cs ++ q) = trim cs := by
  rw [trim_eq, trim_eq, List.dropWhile_append]
  have hrev : ∀ c ∈ q.reverse, isBlank c = true := fun c hc => hq c (List.mem_reverse.1 hc)
  split
  · rename_i h
    rw [List.isEmpty_iff.1 h, List.dropWhile_eq_nil_iff.2 hq]
  · rw [List.rdropWhile, List.reverse_append, List.dropWhile_append_of_pos hrev, List.rdropWhile]

theorem trim_trim (cs : List Char) : trim (trim cs) = trim cs := by
  obtain ⟨p, q, hp, hq, h⟩ := exists_trim cs
  conv_rhs => rw [h, hp.trim_append, hq.append_trim]

theorem length_trim_le (cs : List Char) : (trim cs).length ≤ cs.length := by
  obtain ⟨p, q, -, -, h⟩ := exists_trim cs
  conv_rhs => rw [h, List.length_append, List.length_append]
  omega

theorem trim_rdropWhile (cs : List Char) : trim (cs.rdropWhile isBlank) = trim cs := by
  have hblank : Blank (cs.rtakeWhile isBlank) := fun c hc => List.mem_rtakeWhile_imp hc
  rw [← hblank.append_trim, List.rdropWhile_append_rtakeWhile]

/-- A text that begins with no blank loses by `trim` only blanks at its end, and none before a character
    that is no blank. -/
theorem trim_append_cons {a : Char} (ha : isBlank a = false) (hc : isBlank c = false)
    (cs ds : List Char) :
    trim (a :: cs ++ c :: ds) = a :: cs ++ c :: ds.rdropWhile isBlank := by
  rw [trim_eq, List.cons_append, List.dropWhile_cons_of_neg (by simp [ha]), List.rdropWhile,
    ← List.cons_append, List.reverse_append, List.reverse_cons, List.append_assoc,
    List.singleton_append, List.dropWhile_append]
  split
  · rename_i h
    rw [List.dropWhile_cons_of_neg (by simp [hc]), List.rdropWhile, List.isEmpty_iff.1 h]
    simp
  · simp [List.rdropWhile]

/-- A text has no words but one just when it is that word between blanks. -/
theorem words_eq_singleton_iff : words cs = [w] ↔ trim cs = w ∧ Word w := by
  constructor
  · intro h
    have ht : words (trim cs) = [w] := by rw [words_trim, h]
    have hword : Word (trim cs) := by
      refine ⟨fun hnil => by simp [hnil] at ht, ?_⟩
      intro c hmem
      by_contra hc
      rw [Bool.not_eq_false] at hc
      -- a blank inside would have a word on either side, for no end is blank
      obtain ⟨x, y, hxy⟩ := List.append_of_mem hmem
      have htrim : trim (x ++ c :: y) = x ++ c :: y := by rw [← hxy, trim_trim]
      have hc' : Blank [c] := by simpa [Blank] using hc
      have hx : words x ≠ [] := by
        intro hnil
        have hlen := length_trim_le y
        rw [← hc'.trim_append, ← (words_eq_nil_iff.1 hnil).trim_append, List.singleton_append,
          htrim, List.length_append, List.length_cons] at hlen
        omega
      have hy : words y ≠ [] := by
        intro hnil
        have hblank : Blank (c :: y) := by
          intro d hd
          rcases List.mem_cons.1 hd with rfl | hd
          · exact hc
          · exact words_eq_nil_iff.1 hnil d hd
        have hlen := length_trim_le x
        rw [← hblank.append_trim, htrim, List.length_append, List.length_cons] at hlen
        omega
      have hlen := congrArg List.length ht
      rw [hxy, words_append_cons _ _ hc, List.length_append, List.length_singleton] at hlen
      have hposx := List.length_pos_of_ne_nil hx
      have hposy := List.length_pos_of_ne_nil hy
      omega
    rw [hword.words_eq] at ht
    obtain rfl := List.head_eq_of_cons_eq ht
    exact ⟨rfl, hword⟩
  · rintro ⟨rfl, hw⟩
    rw [← words_trim, hw.words_eq]

theorem Word.trim_eq (hw : Word w) : trim w = w := (words_eq_singleton_iff.1 hw.words_eq).1

/-! ### Cuts at a mark -/

theorem cutAt?_append_cons {mark : Char} (h : mark ∉ cs) (ds : List Char) :
    cutAt? mark (cs ++ mark :: ds) = some (cs, ds) := by
  induction cs with
  | nil => simp [cutAt?]
  | cons c cs ih =>
    simp only [List.mem_cons, not_or] at h
    simp [cutAt?, Ne.symm h.1, ih h.2]

end Timetabling.Text
