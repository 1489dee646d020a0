import Timetabling.Proofs.Text.Blank
import Timetabling.Text.Numeral

/-! Decimal numerals as they are written: words of digits, which are read back. -/

namespace Timetabling.Text

/-- The decimal numeral of a number. -/
def numeral (n : Nat) : List Char := Nat.toDigits 10 n

theorem isBlank_of_isDigit {c : Char} (h : c.isDigit = true) : isBlank c = false := by
  have hc : 48 ≤ c.toNat ∧ c.toNat ≤ 57 := by
    simpa [Char.isDigit, UInt32.le_iff_toNat_le] using h
  simp [isBlank]
  omega

theorem isDigit_of_mem_numeral {n : Nat} : ∀ c ∈ numeral n, c.isDigit = true := fun _ hc =>
  Nat.isDigit_of_mem_toDigits (by decide) (by decide) hc

theorem word_numeral (n : Nat) : Word (numeral n) :=
  ⟨Nat.toDigits_ne_nil, fun c hc => isBlank_of_isDigit (isDigit_of_mem_numeral c hc)⟩

theorem unsignedDigits_of_isDigit {ds : List Char} (h : ∀ c ∈ ds, c.isDigit = true) :
    unsignedDigits ds = ds := by
  unfold unsignedDigits
  split
  · exact absurd (h '+' (List.mem_cons_self ..)) (by decide)
  · rfl

theorem decimalValue_numeral (n : Nat) : decimalValue (numeral n) = n := Nat.ofDigitChars_ten_toDigits

theorem all_isDigit_numeral (n : Nat) : (numeral n).all Char.isDigit = true :=
  List.all_eq_true.2 isDigit_of_mem_numeral

/-- A numeral is read back where its value is below the limit. -/
theorem unsigned?_numeral {limit n : Nat} (h : n < limit) : unsigned? limit (numeral n) = some n := by
  rw [unsigned?, unsignedDigits_of_isDigit isDigit_of_mem_numeral, decimalValue_numeral]
  exact if_pos ⟨(word_numeral n).ne_nil, all_isDigit_numeral n, h⟩

/-- The value of a run of decimal digits, however large. -/
def decimal? (cs : List Char) : Option Nat :=
  if cs ≠ [] ∧ cs.all Char.isDigit then some (decimalValue cs) else none

theorem decimal?_numeral (n : Nat) : decimal? (numeral n) = some n := by
  rw [decimal?, decimalValue_numeral]
  exact if_pos ⟨(word_numeral n).ne_nil, all_isDigit_numeral n⟩

end Timetabling.Text
