/-! Unsigned numerals below a limit: an optional plus sign, then at least one ASCII digit. Leading
    zeros are allowed; a minus sign, a blank or a value that reaches the limit is not. The limits in
    use are the sizes of the unsigned words. -/

namespace Timetabling.Text

/-- The value of a run of decimal digits, most significant first. -/
def decimalValue (ds : List Char) : Nat :=
  ds.foldl (fun n d => 10 * n + (d.toNat - '0'.toNat)) 0

/-- The digits of a numeral, which a plus sign may precede. -/
def unsignedDigits : List Char → List Char
  | '+' :: ds => ds
  | ds => ds

/-- The value of an unsigned numeral below the limit. -/
def unsigned? (limit : Nat) (cs : List Char) : Option Nat :=
  let ds := unsignedDigits cs
  if ds ≠ [] ∧ ds.all Char.isDigit ∧ decimalValue ds < limit then some (decimalValue ds)
  else none

end Timetabling.Text
