import Timetabling.Json.Value

/-! The reader of JSON texts. Each rule takes the characters that are left and gives what it read
    with those after it. The rules for values call each other on what is left, so a bound on the
    depth of calls that grows with the text is never met; `read` sets it. -/

namespace Timetabling.Json

/-- The characters that may stand between tokens. -/
def isSpace (c : Char) : Bool := c = ' ' || c = '\t' || c = '\n' || c = '\r'

/-- What follows the spaces at the front. -/
def skipSpace (cs : List Char) : List Char := cs.dropWhile isSpace

/-! ### Numbers -/

/-- At least one digit. -/
def digits (cs : List Char) : Option (List Char × List Char) :=
  match cs.span Char.isDigit with
  | ([], _) => none
  | (ds, rest) => some (ds, rest)

/-- The whole part: a zero, or digits that begin with another one. -/
def wholePart : List Char → Option (List Char × List Char)
  | '0' :: rest => if (rest.head?.any Char.isDigit) then none else some (['0'], rest)
  | cs => digits cs

/-- A point and digits, or nothing. -/
def fractionPart : List Char → Option (List Char × List Char)
  | '.' :: rest => (digits rest).map fun (ds, rest) => ('.' :: ds, rest)
  | cs => some ([], cs)

/-- The sign of an exponent, or nothing. -/
def exponentSign : List Char → List Char × List Char
  | '+' :: rest => (['+'], rest)
  | '-' :: rest => (['-'], rest)
  | cs => ([], cs)

/-- A mark, perhaps a sign, and digits, or nothing. -/
def exponentPart : List Char → Option (List Char × List Char)
  | c :: rest =>
    if c = 'e' || c = 'E' then
      let (sign, rest) := exponentSign rest
      (digits rest).map fun (ds, rest) => (c :: sign ++ ds, rest)
    else some ([], c :: rest)
  | [] => some ([], [])

/-- A number without its minus sign. -/
def unsignedNumber (cs : List Char) : Option (List Char × List Char) := do
  let (whole, cs) ← wholePart cs
  let (fraction, cs) ← fractionPart cs
  let (exponent, cs) ← exponentPart cs
  return (whole ++ fraction ++ exponent, cs)

/-- A number, with its minus sign if it has one. -/
def number : List Char → Option (List Char × List Char)
  | '-' :: rest => (unsignedNumber rest).map fun (ds, rest) => ('-' :: ds, rest)
  | cs => unsignedNumber cs

/-! ### Strings -/

/-- The value of a hexadecimal digit. -/
def hexDigit? (c : Char) : Option Nat :=
  if c.isDigit then some (c.toNat - '0'.toNat)
  else if 'a' ≤ c ∧ c ≤ 'f' then some (c.toNat - 'a'.toNat + 10)
  else if 'A' ≤ c ∧ c ≤ 'F' then some (c.toNat - 'A'.toNat + 10)
  else none

/-- The character of a short escape. -/
def shortEscape? : Char → Option Char
  | '"' => some '"'
  | '\\' => some '\\'
  | '/' => some '/'
  | 'b' => some '\x08'
  | 'f' => some '\x0c'
  | 'n' => some '\n'
  | 'r' => some '\r'
  | 't' => some '\t'
  | _ => none

/-- What follows the opening quote of a string, up to the closing one. -/
def stringRest : List Char → Option (List Piece × List Char)
  | '"' :: rest => some ([], rest)
  | '\\' :: 'u' :: a :: b :: c :: d :: rest => do
    let code := (← hexDigit? a) * 4096 + (← hexDigit? b) * 256 + (← hexDigit? c) * 16 +
      (← hexDigit? d)
    let (pieces, rest) ← stringRest rest
    return (.unit code :: pieces, rest)
  | '\\' :: e :: rest => do
    let c ← shortEscape? e
    let (pieces, rest) ← stringRest rest
    return (.plain c :: pieces, rest)
  | c :: rest =>
    if c.toNat < 0x20 || c = '\\' then none
    else do
      let (pieces, rest) ← stringRest rest
      return (.plain c :: pieces, rest)
  | [] => none

/-! ### Values -/

mutual

/-- A value, with blanks before it. -/
def value : Nat → List Char → Option (Value × List Char)
  | 0, _ => none
  | depth + 1, cs =>
    match skipSpace cs with
    | 'n' :: 'u' :: 'l' :: 'l' :: rest => some (.null, rest)
    | 't' :: 'r' :: 'u' :: 'e' :: rest => some (.bool true, rest)
    | 'f' :: 'a' :: 'l' :: 's' :: 'e' :: rest => some (.bool false, rest)
    | '"' :: rest => (stringRest rest).map fun (pieces, rest) => (.string pieces, rest)
    | '[' :: rest =>
      match skipSpace rest with
      | ']' :: rest => some (.array [], rest)
      | rest => (elements depth rest).map fun (vs, rest) => (.array vs, rest)
    | '\x7b' :: rest =>
      match skipSpace rest with
      | '\x7d' :: rest => some (.object [], rest)
      | rest => (members depth rest).map fun (ms, rest) => (.object ms, rest)
    | rest => (number rest).map fun (text, rest) => (.number text, rest)

/-- The elements of an array, at least one, and its end. -/
def elements : Nat → List Char → Option (List Value × List Char)
  | 0, _ => none
  | depth + 1, cs => do
    let (v, cs) ← value depth cs
    match skipSpace cs with
    | ']' :: rest => some ([v], rest)
    | ',' :: rest => (elements depth rest).map fun (vs, rest) => (v :: vs, rest)
    | _ => none

/-- The members of an object, at least one, and its end. -/
def members : Nat → List Char → Option (List (List Piece × Value) × List Char)
  | 0, _ => none
  | depth + 1, cs =>
    match skipSpace cs with
    | '"' :: rest => do
      let (key, cs) ← stringRest rest
      match skipSpace cs with
      | ':' :: rest => do
        let (v, cs) ← value depth rest
        match skipSpace cs with
        | '\x7d' :: rest => some ([(key, v)], rest)
        | ',' :: rest => (members depth rest).map fun (ms, rest) => ((key, v) :: ms, rest)
        | _ => none
      | _ => none
    | _ => none

end

/-- The value that a whole text stands for. -/
def read (text : List Char) : Option Value :=
  match value (2 * text.length + 1) text with
  | some (v, rest) => if rest.all isSpace then some v else none
  | none => none

end Timetabling.Json
