import Timetabling.Proofs.Random.Draw

/-! What a draw can come to. An outcome is within reach when there are words that lead to it from every
    source that has these words to give. Any number below a bound can be drawn, as long as there are
    as many words as numbers: to draw `i` the first digit has to be the least whose share of the bound
    is `i`, and the second one, if it is asked for, may be zero. -/

namespace Timetabling

namespace Draw

variable {σ α β : Type} [WordSource σ]

/-- The source gives these words in turn and is left in the second state. -/
inductive Supplies : σ → List UInt64 → σ → Prop
  | nil (s : σ) : Supplies s [] s
  | cons {s s₁ s' : σ} {w : UInt64} {ws : List UInt64} (first : WordSource.next s = (w, s₁))
      (rest : Supplies s₁ ws s') : Supplies s (w :: ws) s'

/-- There are words that the draw takes, all of them and no more, to come to the outcome. -/
def Reaches (x : Draw σ α) (a : α) : Prop :=
  ∃ ws, ∀ s s', Supplies s ws s' → x.run s = some (a, s')

theorem Supplies.exists_of_append {s s' : σ} {us vs : List UInt64} (h : Supplies s (us ++ vs) s') :
    ∃ s₁, Supplies s us s₁ ∧ Supplies s₁ vs s' := by
  induction us generalizing s with
  | nil => exact ⟨s, .nil s, h⟩
  | cons u us ih =>
    cases h with
    | cons first rest =>
      obtain ⟨s₁, hus, hvs⟩ := ih rest
      exact ⟨s₁, .cons first hus, hvs⟩

/-! ### Words and numbers -/

theorem reaches_pure {a b : α} (h : a = b) : Reaches (pure a : Draw σ α) b := by
  subst h
  refine ⟨[], fun s s' h => ?_⟩
  cases h
  rfl

theorem Reaches.bind {x : Draw σ α} {f : α → Draw σ β} {a : α} {b : β} (hx : Reaches x a)
    (hf : Reaches (f a) b) : Reaches (x >>= f) b := by
  obtain ⟨us, hus⟩ := hx
  obtain ⟨vs, hvs⟩ := hf
  refine ⟨us ++ vs, fun s s' h => ?_⟩
  obtain ⟨s₁, hu, hv⟩ := h.exists_of_append
  rw [StateT.run_bind, hus s s₁ hu]
  exact hvs s₁ s' hv

theorem reaches_word (w : UInt64) : Reaches (word : Draw σ UInt64) w := by
  refine ⟨[w], fun s s' h => ?_⟩
  cases h with
  | cons first rest =>
    cases rest
    exact congrArg some first

theorem reaches_half (v : UInt32) : Reaches (half : Draw σ UInt32) v := by
  have hhigh : ((v.toUInt64 <<< 32) >>> 32).toUInt32 = v := by
    refine UInt32.toNat_inj.1 ?_
    have hv := v.toNat_lt
    simp [Nat.shiftLeft_eq, Nat.shiftRight_eq_div_pow]
    omega
  exact (reaches_word (v.toUInt64 <<< 32)).bind (reaches_pure hhigh)

/-- Some digit is enough to come to the number, whatever it leaves to the next one. -/
theorem exists_scaled_eq {base n i : Nat} (hbase : n ≤ base) (hi : i < n) :
    ∃ x < base, scaled base n x 0 = i := by
  have hn : 0 < n := by omega
  have hsplit := Nat.div_add_mod (i * base + (n - 1)) n
  have hrest := Nat.mod_lt (i * base + (n - 1)) hn
  rw [Nat.mul_comm n] at hsplit
  generalize (i * base + (n - 1)) / n = x at hsplit
  generalize (i * base + (n - 1)) % n = m at hsplit hrest
  have hxn : x * n = i * base + (n - 1 - m) := by omega
  have hnext : (i + 1) * base ≤ n * base := Nat.mul_le_mul_right base hi
  rw [Nat.succ_mul] at hnext
  refine ⟨x, ?_, ?_⟩
  · refine Nat.lt_of_mul_lt_mul_right (a := n) ?_
    rw [Nat.mul_comm base]
    omega
  · rw [scaled, Nat.zero_mul, Nat.zero_div, Nat.add_zero, hxn, Nat.mul_comm i,
      Nat.mul_add_div (by omega), Nat.div_eq_of_lt (by omega), Nat.add_zero]

theorem reaches_scale {base n : Nat} {digit : Draw σ (Fin base)} (hdigit : ∀ x, Reaches digit x)
    (hn : 0 < n) (hbase : n ≤ base) (i : Fin n) : Reaches (scale digit n hn) i := by
  obtain ⟨x, hx, hscaled⟩ := exists_scaled_eq hbase i.isLt
  refine (hdigit ⟨x, hx⟩).bind ?_
  split
  · exact (hdigit ⟨0, Nat.zero_lt_of_lt hx⟩).bind (reaches_pure (Fin.ext hscaled))
  · exact reaches_pure (Fin.ext hscaled)

/-- Every number below a bound can be drawn when there are as many words. -/
theorem reaches_below {n : Nat} (hn : n ≤ UInt64.size) (i : Fin n) :
    Reaches (below n : Draw σ (Fin n)) i := by
  rw [below, dif_pos i.pos]
  by_cases hhalf : n ≤ UInt32.size
  · rw [if_pos hhalf]
    exact reaches_scale (fun x => (reaches_half (UInt32.ofFin x)).bind (reaches_pure rfl)) i.pos hhalf i
  · rw [if_neg hhalf]
    exact reaches_scale (fun x => (reaches_word (UInt64.ofFin x)).bind (reaches_pure rfl)) i.pos hn i

/-! ### Scripts -/

/-- A script gives the words that are left in this round. -/
theorem exists_supplies_script (us ws : List UInt64) :
    ∃ s', Supplies (⟨(us ++ ws).toArray, us.length⟩ : Script) ws s' := by
  induction ws generalizing us with
  | nil => exact ⟨_, .nil _⟩
  | cons w ws ih =>
    have hword : (us ++ w :: ws).toArray.getD us.length 0 = w := by simp
    cases ws with
    | nil => exact ⟨_, .cons (congrArg (·, _) hword) (.nil _)⟩
    | cons w' ws =>
      obtain ⟨s', hs'⟩ := ih (us ++ [w])
      have hgiven : (us.length + 1) % (us ++ w :: w' :: ws).length = (us ++ [w]).length := by
        rw [List.length_append, List.length_append, List.length_cons, List.length_cons]
        exact Nat.mod_eq_of_lt (by omega)
      rw [List.append_assoc] at hs'
      exact ⟨s', .cons (Prod.ext hword (congrArg (Script.mk _) hgiven)) hs'⟩

theorem Reaches.exists_script {x : Draw Script α} {a : α} (h : Reaches x a) :
    ∃ words s', x.run (⟨words, 0⟩ : Script) = some (a, s') := by
  obtain ⟨ws, hws⟩ := h
  obtain ⟨s', hs'⟩ := exists_supplies_script [] ws
  exact ⟨ws.toArray, s', hws _ _ hs'⟩

end Draw

end Timetabling
