/-! A value in each of `n` cells, and grids, which have such cells in every row. A change of one cell
    leaves the others as they are, and two tables are equal when all their cells are. -/

namespace Timetabling

/-- Membership in a list of bounded numbers is decided in one way, whatever else is imported. -/
instance lawfulBEqFin (n : Nat) : LawfulBEq (Fin n) := instLawfulBEq

/-- The values, cell by cell. -/
structure Cells (n : Nat) (α : Type) where
  values : Vector α n
  deriving DecidableEq, Repr

namespace Cells

variable {n : Nat} {α : Type}

/-- The table with one value in all its cells. -/
def fill (a : α) : Cells n α := ⟨Vector.replicate n a⟩

/-- The value in a cell. -/
def get (cs : Cells n α) (i : Fin n) : α := cs.values[i]

/-- The table with one cell changed. -/
def modify (cs : Cells n α) (i : Fin n) (f : α → α) : Cells n α :=
  ⟨cs.values.set i (f (cs.get i))⟩

@[simp]
theorem get_fill (a : α) (i : Fin n) : (fill a : Cells n α).get i = a := by
  simp [fill, get]

theorem get_modify (cs : Cells n α) (i j : Fin n) (f : α → α) :
    (cs.modify i f).get j = if j = i then f (cs.get i) else cs.get j := by
  by_cases h : j = i
  · subst h
    simp [modify, get]
  · have h' : i.val ≠ j.val := fun e => h (Fin.ext e.symm)
    simp [modify, get, h, h']

theorem ext_get {cs ds : Cells n α} (h : ∀ i, cs.get i = ds.get i) : cs = ds := by
  cases cs with | mk xs =>
  cases ds with | mk ys =>
  exact congrArg mk (Vector.ext fun i hi => h ⟨i, hi⟩)

end Cells

/-- The values, row by row. -/
structure Grid (rows cols : Nat) (α : Type) where
  rows : Cells rows (Cells cols α)
  deriving DecidableEq, Repr

namespace Grid

variable {rows cols : Nat} {α : Type}

/-- The grid with one value in all its cells. -/
def fill (a : α) : Grid rows cols α := ⟨.fill (.fill a)⟩

/-- The value in row `i` and column `j`. -/
def get (g : Grid rows cols α) (i : Fin rows) (j : Fin cols) : α := (g.rows.get i).get j

/-- The grid with one cell changed. -/
def modify (g : Grid rows cols α) (i : Fin rows) (j : Fin cols) (f : α → α) : Grid rows cols α :=
  ⟨g.rows.modify i fun row => row.modify j f⟩

/-- The grid with one column changed in some of the rows, row after row. -/
def modifyRows (g : Grid rows cols α) (is : List (Fin rows)) (j : Fin cols) (f : α → α) :
    Grid rows cols α :=
  is.foldl (fun g i => g.modify i j f) g

@[simp]
theorem get_fill (a : α) (i : Fin rows) (j : Fin cols) :
    (fill a : Grid rows cols α).get i j = a := by
  simp [fill, get]

theorem get_modify (g : Grid rows cols α) (i i' : Fin rows) (j j' : Fin cols) (f : α → α) :
    (g.modify i j f).get i' j' = if i' = i ∧ j' = j then f (g.get i j) else g.get i' j' := by
  by_cases hi : i' = i
  · subst hi
    simp [modify, get, Cells.get_modify]
  · simp [modify, get, Cells.get_modify, hi]

/-- A row that is named more than once is changed more than once, so `f` has to be settled after
    the first time. -/
theorem get_modifyRows (g : Grid rows cols α) (is : List (Fin rows)) (i' : Fin rows)
    (j j' : Fin cols) {f : α → α} (hf : ∀ a, f (f a) = f a) :
    (g.modifyRows is j f).get i' j' = if i' ∈ is ∧ j' = j then f (g.get i' j) else g.get i' j' := by
  induction is generalizing g with
  | nil => simp [modifyRows]
  | cons i is ih =>
    have hcons : (g.modifyRows (i :: is) j f).get i' j' =
        ((g.modify i j f).modifyRows is j f).get i' j' := rfl
    rw [hcons, ih, get_modify, get_modify]
    by_cases hj : j' = j <;> by_cases hi : i' = i <;> by_cases hmem : i' ∈ is <;> simp_all

theorem ext_get {g h : Grid rows cols α} (e : ∀ i j, g.get i j = h.get i j) : g = h := by
  cases g with | mk gs =>
  cases h with | mk hs =>
  exact congrArg mk (Cells.ext_get fun i => Cells.ext_get fun j => e i j)

end Grid

end Timetabling
