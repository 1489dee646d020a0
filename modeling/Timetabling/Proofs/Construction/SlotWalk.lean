import Mathlib.Data.Fintype.EquivFin
import Mathlib.Data.Int.GCD
import Mathlib.Data.List.Nodup
import Mathlib.Data.Nat.ModEq
import Mathlib.Logic.Function.Iterate
import Timetabling.Construction.SlotWalk
import Timetabling.Proofs.Random.Reach

/-! A walk whose stride has no divisor in common with the number of slots comes to every slot once
    before it returns. Two of its stops at one slot would be a multiple of the number of slots apart,
    and the stride can be cancelled from that multiple. The stride stays as it is, so this holds
    wherever the walk is. In 64 bits the walk is the same for up to `2 ^ 32` slots, and for more when
    their number divides `2 ^ 64`; for any other number of slots some walk goes astray. -/

namespace Timetabling

open Draw

/-! ### The greatest common divisor -/

/-- The number divides both others, and so does every divisor that they have in common divide it. -/
structure GreatestDivisor (a b g : Nat) : Prop where
  dvd_left : g ∣ a
  dvd_right : g ∣ b
  dvd_of_dvd : ∀ d, d ∣ a → d ∣ b → d ∣ g

theorem euclid_eq_gcd (a b : Nat) : euclid a b = a.gcd b := by
  fun_induction euclid a b with
  | case1 a => rw [Nat.gcd_zero_right]
  | case2 a b hb ih => rw [ih, Nat.gcd_comm b, ← Nat.gcd_rec, Nat.gcd_comm]

theorem greatestDivisor_euclid (a b : Nat) : GreatestDivisor a b (euclid a b) := by
  rw [euclid_eq_gcd]
  exact ⟨Nat.gcd_dvd_left a b, Nat.gcd_dvd_right a b, fun _ => Nat.dvd_gcd⟩

namespace SlotWalk

variable {n : Nat} {w : SlotWalk n}

/-! ### Once around -/

/-- The stride has no divisor in common with the number of slots. -/
def Thorough (w : SlotWalk n) : Prop := w.stride.Coprime n

theorem Thorough.advance (h : w.Thorough) : w.advance.Thorough := h

theorem Thorough.ahead_injective (h : w.Thorough) :
    Function.Injective fun k : Fin n => w.ahead k := by
  intro j k e
  have hsum : w.position + j * w.stride ≡ w.position + k * w.stride [MOD n] :=
    congrArg Fin.val e
  have hjk : (j : Nat) ≡ k [MOD n] :=
    (Nat.ModEq.add_left_cancel' _ hsum).cancel_right_of_coprime (Nat.Coprime.symm h)
  exact Fin.ext (hjk.eq_of_lt_of_lt j.isLt k.isLt)

theorem Thorough.mem_cycle (h : w.Thorough) (s : Fin n) : s ∈ w.cycle := by
  obtain ⟨k, rfl⟩ := Finite.surjective_of_injective h.ahead_injective s
  exact List.mem_map.2 ⟨k, List.mem_range.2 k.isLt, rfl⟩

theorem Thorough.nodup_cycle (h : w.Thorough) : w.cycle.Nodup := by
  refine List.nodup_range.map_on ?_
  intro j hj k hk e
  have hjk : (⟨j, List.mem_range.1 hj⟩ : Fin n) = ⟨k, List.mem_range.1 hk⟩ := h.ahead_injective e
  exact congrArg Fin.val hjk

theorem Thorough.perm_cycle (h : w.Thorough) : (w.cycle.map Fin.val).Perm (List.range n) := by
  refine (List.perm_ext_iff_of_nodup (h.nodup_cycle.map Fin.val_injective) List.nodup_range).2 ?_
  intro s
  rw [List.mem_map, List.mem_range]
  constructor
  · rintro ⟨i, -, rfl⟩
    exact i.isLt
  · intro hs
    exact ⟨⟨s, hs⟩, h.mem_cycle _, rfl⟩

/-- A search along such a walk that finds nothing has tried every slot. -/
theorem Thorough.find?_cycle_eq_none_iff (h : w.Thorough) {p : Fin n → Bool} :
    w.cycle.find? p = none ↔ ∀ s, p s = false := by
  simp [List.find?_eq_none, h.mem_cycle]

theorem ahead_zero (w : SlotWalk n) : w.ahead 0 = w.position := by
  refine Fin.ext ?_
  simp [ahead, Nat.mod_eq_of_lt w.position.isLt]

theorem ahead_succ (w : SlotWalk n) (k : Nat) : w.ahead (k + 1) = w.advance.ahead k := by
  refine Fin.ext ?_
  simp only [ahead, SlotWalk.advance, Nat.mod_add_mod]
  rw [Nat.succ_mul, Nat.one_mul, Nat.add_assoc, Nat.add_comm w.stride]

theorem ahead_eq_position (w : SlotWalk n) (k : Nat) : w.ahead k = (advance^[k] w).position := by
  induction k generalizing w with
  | zero => exact ahead_zero w
  | succ k ih => rw [ahead_succ, ih, Function.iterate_succ_apply]

/-! ### Strides to choose from -/

theorem mem_strides {k : Nat} : k ∈ strides n ↔ (1 ≤ k ∧ k < max n 2) ∧ k.Coprime n := by
  rw [strides, List.mem_filter, List.mem_range'_1, decide_eq_true_iff, euclid_eq_gcd, Nat.Coprime]
  omega

/-- A stride of one meets every slot. -/
theorem one_mem_strides (n : Nat) : 1 ∈ strides n :=
  mem_strides.2 ⟨⟨le_rfl, lt_max_of_lt_right Nat.one_lt_two⟩, Nat.gcd_one_left n⟩

/-- The longest stride leads one slot back. -/
theorem pred_mem_strides (hn : 2 ≤ n) : n - 1 ∈ strides n := by
  have hcoprime : (n - 1).Coprime n := (Nat.coprime_self_sub_left (by omega)).2 (Nat.gcd_one_left n)
  exact mem_strides.2 ⟨by omega, hcoprime⟩

theorem length_strides_pos (n : Nat) : 0 < (strides n).length :=
  List.length_pos_of_mem (one_mem_strides n)

variable {σ : Type} [WordSource σ]

/-- A walk that is drawn has one of the strides. -/
theorem gives_random_mem (hn : 0 < n) :
    Gives (random n : Draw σ (SlotWalk n)) fun w => w.stride ∈ strides n :=
  (gives_below (length_strides_pos n)).bind fun i _ =>
    (gives_below hn).bind fun _ _ => gives_pure (List.getElem_mem i.isLt)

/-- A walk that is drawn comes to every slot. -/
theorem gives_random (hn : 0 < n) : Gives (random n : Draw σ (SlotWalk n)) Thorough :=
  (gives_random_mem hn).mono fun _ hw => (mem_strides.1 hw).2

/-- Every walk with one of the strides can be drawn. -/
theorem reaches_random (hn : n < UInt64.size) (hw : w.stride ∈ strides n) :
    Reaches (random n : Draw σ (SlotWalk n)) w := by
  obtain ⟨i, hi, hstride⟩ := List.getElem_of_mem hw
  have hlength : (strides n).length ≤ UInt64.size := by
    have hfilter : (strides n).length ≤ max n 2 - 1 :=
      (List.length_filter_le ..).trans_eq List.length_range'
    have hsize : 2 < UInt64.size := by decide
    omega
  exact (reaches_below hlength ⟨i, hi⟩).bind
    ((reaches_below hn.le w.position).bind (reaches_pure (congrArg (SlotWalk.mk w.position) hstride)))

/-! ### In 64 bits -/

/-- The numbers of slots for which 64 bits are enough. -/
def Manageable (n : Nat) : Prop := n ≤ UInt32.size ∨ n ∣ UInt64.size

/-- In 64 bits the walk comes to every slot once from where it is, and the slot so many strides ahead is
    where it stands when it has advanced as often. -/
structure Tours (w : SlotWalk n) : Prop where
  perm : ((List.range n).map fun k => (w.ahead64 k).val).Perm (List.range n)
  ahead_eq : ∀ k < n, w.ahead64 k = (advance64^[k] w).position

/-- The numbers that a walk computes with are below `2 ^ 64` as long as there are at most `2 ^ 32` slots. -/
theorem position_add_lt (hw : w.stride ∈ strides n) (hn : n ≤ UInt32.size) {k : Nat} (hk : k ≤ n) :
    w.position + k * w.stride < UInt64.size := by
  have hstride := (mem_strides.1 hw).1.2
  have hpos := w.position.isLt
  have hmul : k * w.stride ≤ n * w.stride := Nat.mul_le_mul_right w.stride hk
  have hsquare : n * n ≤ UInt64.size := Nat.mul_le_mul hn hn
  rcases Nat.lt_or_ge n 2 with hone | htwo
  · obtain rfl : n = 1 := by omega
    have hsize : 2 < UInt64.size := by decide
    omega
  · have hlast : n * w.stride ≤ n * (n - 1) := Nat.mul_le_mul_left n (by omega)
    have hrest : n * (n - 1) + n = n * n := by
      rw [← Nat.mul_succ]
      congr 1
      omega
    omega

@[simp]
theorem stride_iterate_advance64 (w : SlotWalk n) (j : Nat) : (advance64^[j] w).stride = w.stride := by
  induction j with
  | zero => rfl
  | succ j ih =>
    rw [Function.iterate_succ_apply']
    exact ih

namespace Manageable

variable (hn : Manageable n) (hw : w.stride ∈ strides n)

include hn hw

theorem ahead64_eq {k : Nat} (hk : k ≤ n) : w.ahead64 k = w.ahead k := by
  refine Fin.ext ?_
  rcases hn with hsmall | hdvd
  · exact congrArg (· % n) (wrap_of_lt (position_add_lt hw hsmall hk))
  · exact Nat.mod_mod_of_dvd _ hdvd

theorem iterate_advance64_eq (j : Nat) : advance64^[j] w = advance^[j] w := by
  induction j with
  | zero => rfl
  | succ j ih =>
    have hstride : (advance64^[j] w).stride ∈ strides n := by rwa [stride_iterate_advance64]
    rw [Function.iterate_succ_apply', Function.iterate_succ_apply', ← ih]
    exact congrArg (SlotWalk.mk · _) (hn.ahead64_eq hstride w.position.pos)

theorem map_ahead64_eq : (List.range n).map w.ahead64 = w.cycle :=
  List.map_congr_left fun _ hk => hn.ahead64_eq hw (List.mem_range.1 hk).le

theorem tours : w.Tours where
  perm := by
    have hthorough : w.Thorough := (mem_strides.1 hw).2
    have hperm := hthorough.perm_cycle
    rwa [← hn.map_ahead64_eq hw, List.map_map] at hperm
  ahead_eq := by
    intro k hk
    rw [hn.ahead64_eq hw hk.le, hn.iterate_advance64_eq hw, ahead_eq_position]

end Manageable

/-- Where 64 bits are not enough, the walk with the longest stride goes astray. It starts so that after
    as many strides as there are slots before it, it stands at the first slot, by the last multiple of
    `n` that 64 bits hold. After one stride more it stands at the last slot, but the number for all these
    strides is cut. -/
theorem exists_not_tours (hn : ¬Manageable n) (hlt : n < UInt64.size) :
    ∃ w : SlotWalk n, w.stride ∈ strides n ∧ ¬w.Tours := by
  simp only [Manageable, not_or, not_le, Nat.dvd_iff_mod_eq_zero] at hn
  obtain ⟨hlarge, hrest⟩ := hn
  have hsquare : UInt32.size * UInt32.size < n * UInt32.size :=
    Nat.mul_lt_mul_of_pos_right hlarge (by decide)
  have hq : UInt64.size / n < UInt32.size := Nat.div_lt_of_lt_mul hsquare
  have hmod := Nat.mod_lt UInt64.size (Nat.zero_lt_of_lt hlarge)
  have hsplit := Nat.div_add_mod UInt64.size n
  generalize UInt64.size % n = r at hrest hsplit hmod
  generalize UInt64.size / n = q at hq hsplit
  let w : SlotWalk n := ⟨⟨q, by omega⟩, n - 1⟩
  refine ⟨w, pred_mem_strides (by omega), fun htours => ?_⟩
  have hback : q * (n - 1) + q = n * q := by
    rw [← Nat.mul_succ, Nat.succ_eq_add_one, Nat.sub_add_cancel (by omega), Nat.mul_comm]
  have hfirst : ((advance64^[q] w).position : Nat) = 0 := by
    have hsum : q + q * (n - 1) = n * q := by omega
    have hfits : n * q < UInt64.size := by omega
    rw [← htours.ahead_eq q (by omega)]
    simp only [ahead64, w, hsum, wrap_of_lt hfits, Nat.mul_mod_right]
  have hlast : ((advance64^[q + 1] w).position : Nat) = n - 1 := by
    rw [Function.iterate_succ_apply']
    simp only [advance64, ahead64, stride_iterate_advance64, hfirst, w, Nat.zero_add, Nat.one_mul]
    rw [wrap_of_lt (by omega), Nat.mod_eq_of_lt (by omega)]
  have hcut : ((advance64^[q + 1] w).position : Nat) = n - 1 - r := by
    have hsum : q + (q + 1) * (n - 1) = UInt64.size + (n - 1 - r) := by
      rw [Nat.succ_mul]
      omega
    have hwrap : wrap (UInt64.size + (n - 1 - r)) = n - 1 - r :=
      (Nat.add_mod_left ..).trans (wrap_of_lt (by omega))
    rw [← htours.ahead_eq (q + 1) (by omega)]
    simp only [ahead64, w, hsum, hwrap]
    exact Nat.mod_eq_of_lt (by omega)
  omega

end SlotWalk

end Timetabling
