/-! Sums of a count over a list, and what 64 bits keep of them. -/

namespace Timetabling

variable {α : Type}

/-- The sum of the counts of the elements. -/
def tally (count : α → Nat) (xs : List α) : Nat := xs.foldr (fun x n => count x + n) 0

@[simp]
theorem tally_nil (count : α → Nat) : tally count [] = 0 := rfl

@[simp]
theorem tally_cons (count : α → Nat) (x : α) (xs : List α) :
    tally count (x :: xs) = count x + tally count xs := rfl

theorem tally_eq_zero_iff {count : α → Nat} {xs : List α} :
    tally count xs = 0 ↔ ∀ x ∈ xs, count x = 0 := by
  induction xs with
  | nil => simp
  | cons x xs ih => simp [ih]

theorem length_flatMap_eq_tally {β : Type} (f : α → List β) (xs : List α) :
    (xs.flatMap f).length = tally (fun x => (f x).length) xs := by
  induction xs with
  | nil => rfl
  | cons x xs ih => rw [List.flatMap_cons, List.length_append, ih, tally_cons]

/-- What 64 bits keep of a number. -/
def wrap (n : Nat) : Nat := n % UInt64.size

theorem wrap_of_lt {n : Nat} (h : n < UInt64.size) : wrap n = n := Nat.mod_eq_of_lt h

/-! A sum comes out the same when its parts were cut to 64 bits before. -/

@[simp]
theorem wrap_wrap_add (m n : Nat) : wrap (wrap m + n) = wrap (m + n) := Nat.mod_add_mod ..

@[simp]
theorem wrap_add_wrap (m n : Nat) : wrap (m + wrap n) = wrap (m + n) := Nat.add_mod_mod ..

end Timetabling
