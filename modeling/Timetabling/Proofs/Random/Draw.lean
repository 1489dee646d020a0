import Timetabling.Random.Draw

/-! What a draw gives whatever words it takes. A draw may fail, so `Gives` says two things at once:
    from every source the draw succeeds, and its outcome has the property. -/

namespace Timetabling

namespace Draw

variable {σ α β : Type}

/-- From every source the draw succeeds, with an outcome that has the property. -/
def Gives (x : Draw σ α) (P : α → Prop) : Prop := ∀ s, ∃ a s', x.run s = some (a, s') ∧ P a

variable {x : Draw σ α} {P Q : α → Prop}

theorem Gives.mono (hx : Gives x P) (h : ∀ a, P a → Q a) : Gives x Q := by
  intro s
  obtain ⟨a, s', hrun, ha⟩ := hx s
  exact ⟨a, s', hrun, h a ha⟩

theorem gives_pure {a : α} (h : P a) : Gives (pure a : Draw σ α) P := fun s => ⟨a, s, rfl, h⟩

theorem Gives.bind {f : α → Draw σ β} {R : β → Prop} (hx : Gives x P)
    (hf : ∀ a, P a → Gives (f a) R) : Gives (x >>= f) R := by
  intro s
  obtain ⟨a, s', hrun, ha⟩ := hx s
  obtain ⟨b, s'', hrun', hb⟩ := hf a ha s'
  refine ⟨b, s'', ?_, hb⟩
  rw [StateT.run_bind, hrun]
  exact hrun'

/-! ### Draws that may come to nothing -/

theorem gives_none : Gives (pure none : Draw σ (Option α)) fun o => ∀ a ∈ o, P a := gives_pure nofun

theorem gives_some {a : α} (h : P a) :
    Gives (pure (some a) : Draw σ (Option α)) fun o => ∀ b ∈ o, P b := by
  refine gives_pure ?_
  intro b hb
  rwa [← Option.some.inj hb]

/-! ### Folds -/

/-- What every step of a fold preserves, the fold preserves. `R` sees what is still to be folded. -/
theorem gives_foldlM {f : β → α → Draw σ β} {R : List α → β → Prop}
    (hf : ∀ y ys b, R (y :: ys) b → Gives (f b y) (R ys)) {xs : List α} {b : β} (hb : R xs b) :
    Gives (xs.foldlM f b) (R []) := by
  induction xs generalizing b with
  | nil => exact gives_pure hb
  | cons y ys ih =>
    rw [List.foldlM_cons]
    exact (hf y ys b hb).bind fun b' hb' => ih hb'

/-! ### Words and numbers -/

theorem gives_scale {base n : Nat} {digit : Draw σ (Fin base)} (hdigit : Gives digit fun _ => True)
    (hn : 0 < n) : Gives (scale digit n hn) fun _ => True := by
  refine hdigit.bind ?_
  intro x _
  split
  · exact hdigit.bind fun y _ => gives_pure trivial
  · exact gives_pure trivial

variable [WordSource σ]

theorem gives_word : Gives (word : Draw σ UInt64) fun _ => True :=
  fun s => ⟨(WordSource.next s).1, (WordSource.next s).2, rfl, trivial⟩

theorem gives_half : Gives (half : Draw σ UInt32) fun _ => True :=
  gives_word.bind fun _ _ => gives_pure trivial

/-- A number below a positive bound can always be drawn. -/
theorem gives_below {n : Nat} (hn : 0 < n) : Gives (below n : Draw σ (Fin n)) fun _ => True := by
  rw [below, dif_pos hn]
  split
  · exact gives_scale (gives_half.bind fun _ _ => gives_pure trivial) hn
  · exact gives_scale (gives_word.bind fun _ _ => gives_pure trivial) hn

theorem gives_among (xs : List α) :
    Gives (among xs : Draw σ (Option α)) fun o => (xs = [] ∧ o = none) ∨ ∃ a ∈ xs, o = some a := by
  unfold among
  split
  · exact gives_pure (.inl ⟨‹_›, rfl⟩)
  · refine (gives_below (List.length_pos_iff.2 ‹_›)).bind fun i _ => gives_pure (.inr ?_)
    exact ⟨xs[i], List.getElem_mem i.isLt, rfl⟩

end Draw

end Timetabling
