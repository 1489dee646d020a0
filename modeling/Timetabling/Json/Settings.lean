import Timetabling.Json.Reader
import Timetabling.Settings
import Timetabling.Text.Numeral

/-! Settings from a JSON text: an object with any of the fields, or an array of their values in the
    order of declaration, perhaps not all. What is not given keeps its default. Values are unsigned
    64-bit integers, and the seed may be null. A key that is no field is passed over, however often
    it comes; a field that comes twice is an error. -/

namespace Timetabling

open Json

namespace Settings

/-- The integer that a number stands for, when it is written with digits alone and fits 64 bits. -/
def integer? (text : List Char) : Option Nat :=
  if text.all Char.isDigit then Text.unsigned? UInt64.size text else none

/-- The settings with the value in a field. -/
def assignValue? (s : Settings) : Field → Value → Option Settings
  | .seed, .null => some { s with seed := none }
  | f, .number text => (integer? text).map (s.assign f)
  | _, _ => none

/-- The settings with the members of an object; the fields in `seen` have come before. -/
def assignMembers? (s : Settings) (seen : List Field) :
    List (List Piece × Value) → Option Settings
  | [] => some s
  | (key, v) :: rest =>
    match decode? key with
    | none => none
    | some cs =>
      match Field.ofKey? (String.ofList cs) with
      | none => s.assignMembers? seen rest
      | some f =>
        if f ∈ seen then none
        else (s.assignValue? f v).bind fun s => s.assignMembers? (f :: seen) rest

/-- The settings with values in the given fields, in order; there may be too few values. -/
def assignElements? (s : Settings) : List Field → List Value → Option Settings
  | _, [] => some s
  | [], _ :: _ => none
  | f :: fs, v :: vs => (s.assignValue? f v).bind fun s => s.assignElements? fs vs

/-- The settings that a JSON text gives. -/
def ofJson? (text : List Char) : Option Settings :=
  match Json.read text with
  | some (.object ms) => assignMembers? {} [] ms
  | some (.array vs) => assignElements? {} Field.all vs
  | _ => none

end Settings

end Timetabling
