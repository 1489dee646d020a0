/-! A table of marks, stored row after row in one flat run of bits. A look-up reads the bit at
    `row * width + column`, so a column past the width runs on into the next row, and a place past
    the last bit carries no mark. -/

namespace Timetabling

/-- The marks of a table with `width` columns, row by row. -/
structure MarkTable where
  width : Nat
  bits : Array Bool
  deriving DecidableEq, Repr

namespace MarkTable

/-- The table with `rows` rows that carries the given marks and no others. -/
def ofMarks (rows width : Nat) (marks : List (Nat × Nat)) : MarkTable where
  width := width
  bits := marks.foldl (fun bits m => bits.setIfInBounds (m.1 * width + m.2) true)
    (Array.replicate (rows * width) false)

/-- Whether the place at row `i` and column `j` carries a mark. -/
def marked (t : MarkTable) (i j : Nat) : Bool := t.bits.getD (i * t.width + j) false

/-- The marked columns of row `i`, ascending. -/
def markedColumns (t : MarkTable) (i : Nat) : List Nat :=
  (List.range t.width).filter (t.marked i)

/-- The number of marks in row `i`. -/
def rowCount (t : MarkTable) (i : Nat) : Nat := (List.range t.width).countP (t.marked i)

theorem length_markedColumns (t : MarkTable) (i : Nat) :
    (t.markedColumns i).length = t.rowCount i := by
  simp [markedColumns, rowCount, List.countP_eq_length_filter]

end MarkTable

end Timetabling
