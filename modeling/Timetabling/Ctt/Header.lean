import Timetabling.Ctt.Error
import Timetabling.Text.Blank
import Timetabling.Text.Numeral

/-! The header of a `.ctt` text: lines `Key: value` up to the first section title. A field may be
    given more than once; the last one counts. -/

namespace Timetabling.Ctt

open Text

/-- A line of the text without the blanks at its ends, with its number counted from one. -/
structure Line where
  number : Nat
  text : List Char
  deriving DecidableEq, Repr

/-- The lines of a text that are not blank. -/
def Line.ofText (cs : List Char) : List Line :=
  (((lines cs).zipIdx 1).map fun l => ⟨l.2, trim l.1⟩).filter fun l => !l.text.isEmpty

/-- The error of a fault in this line. -/
def Line.fail {α : Type} (l : Line) (fault : Fault) : Except ReadError α :=
  .error (.malformed l.number fault)

/-- The fields of a header. -/
inductive Key where
  | name
  | courses
  | rooms
  | days
  | periods
  | curricula
  | unavailabilities
  | roomConstraints
  | daily
  deriving DecidableEq, Repr

/-- The words that the fields go by; one field has two of them. -/
def Key.words : List (String × Key) :=
  [("Name", name), ("Courses", courses), ("Rooms", rooms), ("Days", days),
    ("Periods_per_day", periods), ("Curricula", curricula), ("Constraints", unavailabilities),
    ("UnavailabilityConstraints", unavailabilities), ("RoomConstraints", roomConstraints),
    ("Min_Max_Daily_Lectures", daily)]

/-- The field that goes by a word. -/
def Key.ofWord? (word : String) : Option Key :=
  (Key.words.find? fun w => w.1 = word).map Prod.snd

/-- What the header has declared so far. -/
structure Header where
  name : String := ""
  courses : Option Nat := none
  rooms : Option Nat := none
  days : Option Nat := none
  periods : Option Nat := none
  curricula : Option Nat := none
  daily : Option DailyBounds := none
  unavailabilities : Option Nat := none
  roomConstraints : Option Nat := none
  deriving DecidableEq, Repr

namespace Header

/-- The value of a field that counts something. -/
def count (l : Line) (word : String) (value : List Char) : Except ReadError Nat :=
  match unsigned? UInt64.size value with
  | some n => .ok n
  | none => l.fail (.notACount word (String.ofList value))

/-- The value of the field that gives the daily bounds. -/
def bounds (l : Line) (word : String) (value : List Char) : Except ReadError DailyBounds :=
  match (Text.words value).map (unsigned? UInt64.size) with
  | [some least, some greatest] => .ok ⟨least, greatest⟩
  | _ => l.fail (.notTwoCounts word (String.ofList value))

/-- The header after a line that gives a value to the field going by the word. -/
def declare (h : Header) (l : Line) (word : String) (value : List Char) :
    Except ReadError Header :=
  match Key.ofWord? word with
  | some .name => .ok { h with name := String.ofList value }
  | some .courses => do return { h with courses := some (← count l word value) }
  | some .rooms => do return { h with rooms := some (← count l word value) }
  | some .days => do return { h with days := some (← count l word value) }
  | some .periods => do return { h with periods := some (← count l word value) }
  | some .curricula => do return { h with curricula := some (← count l word value) }
  | some .unavailabilities => do return { h with unavailabilities := some (← count l word value) }
  | some .roomConstraints => do return { h with roomConstraints := some (← count l word value) }
  | some .daily => do return { h with daily := some (← bounds l word value) }
  | none => l.fail (.unknownKey word)

/-- Reads fields up to a line whose word is a section title; that line and those after it remain. -/
def read (h : Header) : List Line → Except ReadError (Header × List Line)
  | [] => .ok (h, [])
  | l :: ls =>
    match cutAt? ':' l.text with
    | none => l.fail (.noKey (String.ofList l.text))
    | some (word, value) =>
      if (Section.ofTitle? word).isSome then .ok (h, l :: ls)
      else do (← h.declare l (String.ofList (trim word)) (trim value)).read ls

/-- The number of records that the header declares for a section. -/
def declared (h : Header) : Section → Option Nat
  | .courses => h.courses
  | .rooms => h.rooms
  | .curricula => h.curricula
  | .unavailabilities => h.unavailabilities
  | .roomConstraints => h.roomConstraints

end Header

end Timetabling.Ctt
