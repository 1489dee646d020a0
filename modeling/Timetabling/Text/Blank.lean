/-! Blanks, and the cuts of a text at them. A blank is a character with the Unicode property
    White_Space, so the no-break space and the ideographic space count. A line is read after
    `trim`, its fields are its `words`; neither ever holds a blank at an end. -/

namespace Timetabling.Text

/-- The characters with the Unicode property White_Space. -/
def isBlank (c : Char) : Bool :=
  (9 ≤ c.toNat && c.toNat ≤ 13) || (0x2000 ≤ c.toNat && c.toNat ≤ 0x200A) ||
    [0x20, 0x85, 0xA0, 0x1680, 0x2028, 0x2029, 0x202F, 0x205F, 0x3000].contains c.toNat

/-- The text without the blanks at its two ends. -/
def trim (cs : List Char) : List Char :=
  ((cs.dropWhile isBlank).reverse.dropWhile isBlank).reverse

/-- The maximal runs of characters that are no blanks, in order. -/
def words (cs : List Char) : List (List Char) :=
  (cs.splitOnP isBlank).filter fun w => !w.isEmpty

/-- The lines of a text; a line feed ends each but the last. -/
def lines (cs : List Char) : List (List Char) := cs.splitOn '\n'

/-- The parts before and after the first `mark`, if there is one. -/
def cutAt? (mark : Char) : List Char → Option (List Char × List Char)
  | [] => none
  | c :: cs =>
    if c = mark then some ([], cs) else (cutAt? mark cs).map fun (l, r) => (c :: l, r)

end Timetabling.Text
