import Timetabling.Random.Draw
import Timetabling.Tally

/-! A walk around the slots by a fixed stride. The stride has no divisor in common with the number
    of slots, so the walk comes to every slot once before it returns to one. Where a slot lies ahead is
    a sum and a product, which 64 bits may be too few to hold; `ahead64` tells what comes out then. -/

namespace Timetabling

/-- The greatest common divisor, found by division with remainder. -/
def euclid (a b : Nat) : Nat :=
  if b = 0 then a else euclid b (a % b)
  termination_by b
  decreasing_by exact Nat.mod_lt _ (Nat.pos_of_ne_zero ‹_›)

/-- A place among `n` slots and the stride to the next one. -/
structure SlotWalk (n : Nat) where
  position : Fin n
  stride : Nat
  deriving DecidableEq, Repr

namespace SlotWalk

variable {n : Nat}

/-- The slot that the walk comes to after `k` strides. -/
def ahead (w : SlotWalk n) (k : Nat) : Fin n :=
  ⟨(w.position + k * w.stride) % n, Nat.mod_lt _ w.position.pos⟩

/-- The walk after one stride. -/
def advance (w : SlotWalk n) : SlotWalk n := { w with position := w.ahead 1 }

/-- The slot that comes out for `k` strides when the sum and the product are cut to 64 bits. -/
def ahead64 (w : SlotWalk n) (k : Nat) : Fin n :=
  ⟨wrap (w.position + k * w.stride) % n, Nat.mod_lt _ w.position.pos⟩

/-- The walk that comes out after one stride when the sum is cut to 64 bits. -/
def advance64 (w : SlotWalk n) : SlotWalk n := { w with position := w.ahead64 1 }

/-- The slots that the walk comes to before it returns, beginning where it is. -/
def cycle (w : SlotWalk n) : List (Fin n) := (List.range n).map w.ahead

/-- The strides on which a walk of `n` slots meets them all, ascending. -/
def strides (n : Nat) : List Nat := (List.range' 1 (max n 2 - 1)).filter fun s => euclid s n = 1

/-- A walk with a random stride and a random start, drawn in this order. -/
def random {σ : Type} [WordSource σ] (n : Nat) : Draw σ (SlotWalk n) := do
  let i ← Draw.below (strides n).length
  let start ← Draw.below n
  return ⟨start, (strides n)[i]⟩

end SlotWalk

end Timetabling
