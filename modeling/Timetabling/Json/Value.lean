/-! JSON texts as values. A number keeps its digits and a string its escapes, so that who reads a
    value decides what they stand for: a `\u` escape is one UTF-16 unit, and `decode?` joins two
    surrogates and refuses one that stands alone. -/

namespace Timetabling.Json

/-- One item of a string: a character, written as it is or by a short escape, or a UTF-16 unit. -/
inductive Piece where
  | plain (c : Char)
  | unit (code : Nat)
  deriving DecidableEq, Repr

/-- A JSON value. -/
inductive Value where
  | null
  | bool (b : Bool)
  | number (text : List Char)
  | string (pieces : List Piece)
  | array (elements : List Value)
  | object (members : List (List Piece × Value))

/-- Whether the unit is the first half of a pair. -/
def isHighSurrogate (code : Nat) : Bool := 0xD800 ≤ code && code ≤ 0xDBFF

/-- Whether the unit is the second half of a pair. -/
def isLowSurrogate (code : Nat) : Bool := 0xDC00 ≤ code && code ≤ 0xDFFF

/-- The character that two surrogates stand for. -/
def joinSurrogates (high low : Nat) : Char :=
  Char.ofNat (0x10000 + (high - 0xD800) * 0x400 + (low - 0xDC00))

/-- The characters of a string, unless a surrogate in it stands alone. -/
def decode? : List Piece → Option (List Char)
  | [] => some []
  | .plain c :: rest => (decode? rest).map (c :: ·)
  | .unit code :: rest =>
    if isHighSurrogate code then
      match rest with
      | .unit low :: rest =>
        if isLowSurrogate low then (decode? rest).map (joinSurrogates code low :: ·) else none
      | _ => none
    else if isLowSurrogate code then none
    else (decode? rest).map (Char.ofNat code :: ·)

end Timetabling.Json
