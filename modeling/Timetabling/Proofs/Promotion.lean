import Mathlib.Data.List.Forall2
import Mathlib.Data.Nat.Basic

/-! What raised keys do to a stable sort. A list is put in the order of a key, the greatest first, and
    then in the order of another key that is not lower for some elements and the same for the rest. The
    elements that were raised come forward and nothing else changes. Both orders arise by putting
    elements in from the last one to the first, each behind those of a greater key and before the
    rest. Step by step the raised elements are no later than they would be without the raise. -/

namespace Timetabling

variable {α : Type}

/-! ### Sorting by a key -/

/-- The list with the greatest keys first, in its own order on ties. -/
def byKey (key : α → Nat) (xs : List α) : List α := xs.mergeSort fun a b => key b ≤ key a

/-- An element goes between those that have a greater key and the rest. -/
structure Split (key : α → Nat) (a : α) (above below : List α) : Prop where
  lt : ∀ b ∈ above, key a < key b
  le : ∀ b ∈ below, key b ≤ key a

/-- From one list to the other some elements come forward: their order among themselves and the order
    of the rest stay, and none of them stands later. -/
structure Promoted (own : α → Bool) (before after : List α) : Prop where
  rest_eq : after.filter (fun a => !own a) = before.filter fun a => !own a
  own_eq : after.filter own = before.filter own
  places_le : List.Forall₂ (· ≤ ·) (after.findIdxs own) (before.findIdxs own)

variable {own : α → Bool} {key : α → Nat} {a : α} {above below above' below' xs : List α}

theorem byKey_perm (key : α → Nat) (xs : List α) : (byKey key xs).Perm xs := List.mergeSort_perm ..

theorem key_trans (key : α → Nat) (a b c : α) (hab : decide (key b ≤ key a) = true)
    (hbc : decide (key c ≤ key b) = true) : decide (key c ≤ key a) = true := by
  rw [decide_eq_true_eq] at hab hbc ⊢
  exact Nat.le_trans hbc hab

theorem key_total (key : α → Nat) (a b : α) :
    (decide (key b ≤ key a) || decide (key a ≤ key b)) = true := by
  rw [Bool.or_eq_true, decide_eq_true_eq, decide_eq_true_eq]
  exact Nat.le_total (key b) (key a)

theorem byKey_ordered (key : α → Nat) (xs : List α) :
    (byKey key xs).Pairwise fun a b => key b ≤ key a :=
  (List.pairwise_mergeSort (key_trans key) (key_total key) xs).imp fun h => of_decide_eq_true h

/-- An element that is declared before all others stands before all that have its key. -/
theorem exists_byKey_cons (key : α → Nat) (a : α) (xs : List α) : ∃ above below,
    byKey key (a :: xs) = above ++ a :: below ∧ byKey key xs = above ++ below ∧
      Split key a above below := by
  obtain ⟨above, below, hcons, hxs, habove⟩ :=
    List.mergeSort_cons (key_trans key) (key_total key) a xs
  have hordered := byKey_ordered key (a :: xs)
  rw [byKey, hcons, List.pairwise_append, List.pairwise_cons] at hordered
  refine ⟨above, below, hcons, hxs, ?_, hordered.2.1.1⟩
  intro b hb
  simpa using habove b hb

namespace Split

theorem filter_lt (h : Split key a above below) :
    (above ++ below).filter (fun b => key a < key b) = above := by
  rw [List.filter_append, List.filter_eq_self.2 fun b hb => by simpa using h.lt b hb,
    List.filter_eq_nil_iff.2 fun b hb => by simpa using h.le b hb, List.append_nil]

theorem filter_le (h : Split key a above below) :
    (above ++ below).filter (fun b => key b ≤ key a) = below := by
  rw [List.filter_append, List.filter_eq_nil_iff.2 fun b hb => by simpa using h.lt b hb,
    List.filter_eq_self.2 fun b hb => by simpa using h.le b hb, List.nil_append]

theorem filter_above (h : Split key a above below) (p : α → Bool) :
    above.filter p = ((above ++ below).filter p).filter fun b => key a < key b := by
  rw [List.filter_comm, h.filter_lt]

theorem filter_below (h : Split key a above below) (p : α → Bool) :
    below.filter p = ((above ++ below).filter p).filter fun b => key b ≤ key a := by
  rw [List.filter_comm, h.filter_le]

theorem length_above (h : Split key a above below) :
    above.length = (above ++ below).countP fun b => key a < key b := by
  rw [List.countP_eq_length_filter, h.filter_lt]

/-- Of elements that share a key none is above when one of them is not. -/
theorem rest_above (h : Split key a above below) (hown : ∀ b c, own b = true → own c = true →
    key b = key c) {c : α} (hc : own c = true) (hle : key c ≤ key a) :
    ∀ b ∈ above, own b = false := by
  intro b hb
  have hlt := h.lt b hb
  by_contra hb
  have heq := hown b c (by simpa using hb) hc
  omega

end Split

/-! ### Places -/

theorem forall₂_le_trans {is js ks : List Nat} (h : List.Forall₂ (· ≤ ·) is js)
    (h' : List.Forall₂ (· ≤ ·) js ks) : List.Forall₂ (· ≤ ·) is ks := by
  induction h generalizing ks with
  | nil => exact h'
  | cons hij _ ih =>
    cases h' with
    | cons hjk h' => exact .cons (Nat.le_trans hij hjk) (ih h')

theorem forall₂_le_succ {is js : List Nat} (h : List.Forall₂ (· ≤ ·) is js) :
    List.Forall₂ (· ≤ ·) (is.map (· + 1)) (js.map (· + 1)) := by
  rw [List.forall₂_map_left_iff, List.forall₂_map_right_iff]
  exact h.imp fun _ _ => Nat.succ_le_succ

theorem findIdxs_succ (xs : List α) (k : Nat) :
    xs.findIdxs own (k + 1) = (xs.findIdxs own k).map (· + 1) := by
  rw [List.findIdxs_start (s := k + 1), List.findIdxs_start (s := k), List.map_map]
  rfl

theorem findIdxs_eq_nil (h : ∀ b ∈ xs, own b = false) (k : Nat) : xs.findIdxs own k = [] :=
  List.findIdxs_eq_nil_iff.2 h

/-- One of the rest that is put in moves those behind it by a place. -/
theorem findIdxs_append_cons (ha : own a = false) (above below : List α) :
    (above ++ a :: below).findIdxs own =
      above.findIdxs own ++ (below.findIdxs own above.length).map (· + 1) := by
  rw [List.findIdxs_append, List.findIdxs_cons, if_neg (by simp [ha]), Nat.zero_add, findIdxs_succ]

theorem findIdxs_append_cons_of_above (ha : own a = false) (habove : ∀ b ∈ above, own b = false)
    (below : List α) :
    (above ++ a :: below).findIdxs own = ((above ++ below).findIdxs own).map (· + 1) := by
  rw [findIdxs_append_cons ha, List.findIdxs_append, findIdxs_eq_nil habove, List.nil_append,
    List.nil_append, Nat.zero_add]

theorem findIdxs_append_cons_of_below (ha : own a = false) (above : List α)
    (hbelow : ∀ b ∈ below, own b = false) :
    (above ++ a :: below).findIdxs own = (above ++ below).findIdxs own := by
  rw [findIdxs_append_cons ha, List.findIdxs_append, findIdxs_eq_nil hbelow, findIdxs_eq_nil hbelow,
    List.map_nil]

theorem findIdxs_le_append_cons (ha : own a = false) (above below : List α) :
    List.Forall₂ (· ≤ ·) ((above ++ below).findIdxs own) ((above ++ a :: below).findIdxs own) := by
  rw [findIdxs_append_cons ha, List.findIdxs_append, Nat.zero_add]
  refine List.rel_append (List.forall₂_same.2 fun _ _ => le_rfl) ?_
  exact List.forall₂_map_right_iff.2 (List.forall₂_same.2 fun i _ => Nat.le_succ i)

/-- One of those that come forward stands behind what is above it and moves the others. -/
theorem findIdxs_append_own (ha : own a = true) (habove : ∀ b ∈ above, own b = false)
    (below : List α) : (above ++ a :: below).findIdxs own =
      above.length :: ((above ++ below).findIdxs own).map (· + 1) := by
  rw [List.findIdxs_append, List.findIdxs_cons, if_pos ha, List.findIdxs_append,
    findIdxs_eq_nil habove, List.nil_append, List.nil_append, Nat.zero_add, findIdxs_succ]

/-! ### Raising some of the keys -/

namespace Promoted

theorem insert_own (h : Promoted own (above ++ below) (above' ++ below')) (ha : own a = true)
    (habove : ∀ b ∈ above, own b = false) (habove' : ∀ b ∈ above', own b = false)
    (hle : above'.length ≤ above.length) :
    Promoted own (above ++ a :: below) (above' ++ a :: below') where
  rest_eq := by simpa [List.filter_append, ha] using h.rest_eq
  own_eq := by
    have hown := h.own_eq
    have hnil : above.filter own = [] := List.filter_eq_nil_iff.2 (by simpa using habove)
    have hnil' : above'.filter own = [] := List.filter_eq_nil_iff.2 (by simpa using habove')
    simp only [List.filter_append, hnil, hnil', List.nil_append] at hown
    simp [hnil, hnil', ha, hown]
  places_le := by
    rw [findIdxs_append_own ha habove, findIdxs_append_own ha habove']
    exact .cons hle (forall₂_le_succ h.places_le)

/-- One of the rest is put in. It is put before those that come forward only if it would be put there
    without the raise too. -/
theorem insert_rest (h : Promoted own (above ++ below) (above' ++ below')) (ha : own a = false)
    (hrest : above'.filter (fun b => !own b) = above.filter (fun b => !own b) ∧
      below'.filter (fun b => !own b) = below.filter fun b => !own b)
    (hown : (∀ b ∈ below', own b = false) ∨
      (∀ b ∈ above, own b = false) ∧ ∀ b ∈ above', own b = false) :
    Promoted own (above ++ a :: below) (above' ++ a :: below') where
  rest_eq := by simp [ha, hrest]
  own_eq := by simpa [List.filter_append, ha] using h.own_eq
  places_le := by
    rcases hown with hbelow | ⟨habove, habove'⟩
    · rw [findIdxs_append_cons_of_below ha above' hbelow]
      exact forall₂_le_trans h.places_le (findIdxs_le_append_cons ha above below)
    · rw [findIdxs_append_cons_of_above ha habove, findIdxs_append_cons_of_above ha habove']
      exact forall₂_le_succ h.places_le

end Promoted

/-- Elements that share one key get another one, not a lower one, and the rest keep theirs. -/
structure Raises (own : α → Bool) (f g : α → Nat) : Prop where
  rest_eq : ∀ a, own a = false → g a = f a
  own_eq : ∀ a b, own a = true → own b = true → f a = f b
  raised_eq : ∀ a b, own a = true → own b = true → g a = g b
  le : ∀ a, f a ≤ g a

namespace Raises

variable {f g : α → Nat}

/-- Above one that comes forward there are no more elements than without the raise. -/
theorem length_above_le (h : Raises own f g) (ha : own a = true) (hf : Split f a above below)
    (hg : Split g a above' below') (hperm : (above' ++ below').Perm (above ++ below)) :
    above'.length ≤ above.length := by
  rw [hg.length_above, hf.length_above, hperm.countP_eq]
  refine List.countP_mono_left fun b _ hlt => ?_
  simp only [decide_eq_true_eq] at hlt ⊢
  cases hb : own b with
  | true =>
    have heq := h.raised_eq a b ha hb
    omega
  | false =>
    have heq := h.rest_eq b hb
    have hle := h.le a
    omega

/-- One of the rest splits the rest in one way, with the raise and without. -/
theorem filter_rest (h : Raises own f g) (ha : own a = false)
    (hrest : (above' ++ below').filter (fun b => !own b) =
      (above ++ below).filter fun b => !own b)
    (hf : Split f a above below) (hg : Split g a above' below') :
    above'.filter (fun b => !own b) = above.filter (fun b => !own b) ∧
      below'.filter (fun b => !own b) = below.filter fun b => !own b := by
  have hkey : ∀ b ∈ (above ++ below).filter (fun b => !own b), g b = f b := by
    intro b hb
    exact h.rest_eq b (by simpa using (List.mem_filter.1 hb).2)
  have ha' := h.rest_eq a ha
  rw [hf.filter_above, hf.filter_below, hg.filter_above, hg.filter_below, hrest]
  constructor
  · refine List.filter_congr ?_
    intro b hb
    rw [hkey b hb, ha']
  · refine List.filter_congr ?_
    intro b hb
    rw [hkey b hb, ha']

/-- Sorting by the raised keys promotes those that were raised. -/
theorem promoted (h : Raises own f g) (xs : List α) : Promoted own (byKey f xs) (byKey g xs) := by
  induction xs with
  | nil => simpa [byKey] using Promoted.mk rfl rfl .nil
  | cons a xs ih =>
    obtain ⟨above, below, hcons, hxs, hf⟩ := exists_byKey_cons f a xs
    obtain ⟨above', below', hcons', hxs', hg⟩ := exists_byKey_cons g a xs
    rw [hxs, hxs'] at ih
    rw [hcons, hcons']
    cases ha : own a with
    | true =>
      have hperm : (above' ++ below').Perm (above ++ below) := by
        rw [← hxs, ← hxs']
        exact (byKey_perm g xs).trans (byKey_perm f xs).symm
      exact ih.insert_own ha (hf.rest_above h.own_eq ha le_rfl)
        (hg.rest_above h.raised_eq ha le_rfl) (h.length_above_le ha hf hg hperm)
    | false =>
      refine ih.insert_rest ha (h.filter_rest ha ih.rest_eq hf hg) ?_
      by_cases hbelow : ∀ b ∈ below', own b = false
      · exact .inl hbelow
      · -- one that is below with the raise is below without it, and so are all that share its key
        push Not at hbelow
        obtain ⟨c, hc, hc'⟩ := hbelow
        have hown : own c = true := by simpa using hc'
        have hle : f c ≤ f a := by
          rw [← h.rest_eq a ha]
          exact Nat.le_trans (h.le c) (hg.le c hc)
        exact .inr ⟨hf.rest_above h.own_eq hown hle, hg.rest_above h.raised_eq hown (hg.le c hc)⟩

end Raises

end Timetabling
