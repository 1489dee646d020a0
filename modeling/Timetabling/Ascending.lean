/-! Insertion into a list that ascends by a key. The new element goes before the first one whose key
    is not less, so an ascending list stays ascending. -/

namespace Timetabling

variable {α : Type}

/-- The list ascends by the key, without ties. -/
def Ascending (key : α → Nat) (xs : List α) : Prop := xs.Pairwise fun a b => key a < key b

/-- The list with `a` before the first element whose key is not less. -/
def insertAscending (key : α → Nat) (a : α) : List α → List α
  | [] => [a]
  | b :: bs => if key b < key a then b :: insertAscending key a bs else a :: b :: bs

theorem insertAscending_perm (key : α → Nat) (a : α) (xs : List α) :
    (insertAscending key a xs).Perm (a :: xs) := by
  induction xs with
  | nil => exact .refl _
  | cons b bs ih =>
    by_cases h : key b < key a
    · simpa [insertAscending, h] using (ih.cons b).trans (.swap a b bs)
    · simp [insertAscending, h]

@[simp]
theorem mem_insertAscending {key : α → Nat} {a x : α} {xs : List α} :
    x ∈ insertAscending key a xs ↔ x = a ∨ x ∈ xs := by
  rw [(insertAscending_perm key a xs).mem_iff, List.mem_cons]

@[simp]
theorem length_insertAscending (key : α → Nat) (a : α) (xs : List α) :
    (insertAscending key a xs).length = xs.length + 1 := by
  rw [(insertAscending_perm key a xs).length_eq, List.length_cons]

theorem Ascending.insertAscending {key : α → Nat} {a : α} {xs : List α} (h : Ascending key xs)
    (ha : ∀ x ∈ xs, key x ≠ key a) : Ascending key (insertAscending key a xs) := by
  induction xs with
  | nil => exact List.pairwise_singleton ..
  | cons b bs ih =>
    have hb := ha b (by simp)
    obtain ⟨hlt, hbs⟩ := List.pairwise_cons.1 h
    by_cases hc : key b < key a
    · simp only [Timetabling.insertAscending, hc, if_true]
      refine List.pairwise_cons.2 ⟨fun x hx => ?_, ih hbs fun x hx => ha x (by simp [hx])⟩
      rcases mem_insertAscending.1 hx with rfl | hx
      · exact hc
      · exact hlt x hx
    · simp only [Timetabling.insertAscending, hc, if_false]
      refine List.pairwise_cons.2 ⟨fun x hx => ?_, h⟩
      rcases List.mem_cons.1 hx with rfl | hx
      · omega
      · have := hlt x hx
        omega

theorem Ascending.erase [BEq α] {key : α → Nat} {xs : List α} (h : Ascending key xs) (a : α) :
    Ascending key (xs.erase a) :=
  h.sublist List.erase_sublist

end Timetabling
