import Timetabling.Random.Source

/-! Random draws as steps on a word source. A draw fails only when it asks for something that is not
    there, such as a number below zero; a draw that succeeds has used up some words. A number below
    `n` takes one or two digits, which are the high halves of words as long as such a half has `n`
    values, and whole words beyond. The first digit is scaled to `n`, and the second decides the
    carry when the fraction left over by the first leaves it open. -/

namespace Timetabling

/-- A step that may take words from a source of type `σ`, and may fail. -/
abbrev Draw (σ : Type) := StateT σ Option

namespace Draw

variable {σ : Type} [WordSource σ]

/-- The next word. -/
def word : Draw σ UInt64 := fun s => some (WordSource.next s)

/-- The high half of the next word. -/
def half : Draw σ UInt32 := do return ((← word) >>> 32).toUInt32

/-- The whole part of `n` times the fraction that the digits `x` and `y` write one after another. -/
def scaled (base n x y : Nat) : Nat := (x * n + y * n / base) / base

theorem scaled_lt {base n x y : Nat} (hn : 0 < n) (hx : x < base) (hy : y < base) :
    scaled base n x y < n := by
  have hy' : y * n / base < n := Nat.div_lt_of_lt_mul (Nat.mul_lt_mul_of_pos_right hy hn)
  have hx' : (x + 1) * n ≤ base * n := Nat.mul_le_mul_right n hx
  refine Nat.div_lt_of_lt_mul (Nat.lt_of_lt_of_le ?_ hx')
  rw [Nat.succ_mul]
  omega

/-- A number below `n` by digits to a base, near enough equally likely. The second digit is taken
    only when it can still carry into the whole part. -/
def scale {base : Nat} (digit : Draw σ (Fin base)) (n : Nat) (hn : 0 < n) : Draw σ (Fin n) := do
  let x ← digit
  if base - n < x.val * n % base then
    let y ← digit
    return ⟨scaled base n x y, scaled_lt hn x.isLt y.isLt⟩
  else
    return ⟨scaled base n x 0, scaled_lt hn x.isLt x.pos⟩

/-- A number below `n`; fails when `n` is zero. -/
def below (n : Nat) : Draw σ (Fin n) :=
  if hn : 0 < n then
    if n ≤ UInt32.size then scale (do return (← half).toFin) n hn
    else scale (do return (← word).toFin) n hn
  else failure

/-- A member of the list, or nothing, and then no word taken, when the list is empty. -/
def among {α : Type} (xs : List α) : Draw σ (Option α) :=
  if xs = [] then return none
  else do
    let i ← below xs.length
    return xs[i]

end Draw

end Timetabling
