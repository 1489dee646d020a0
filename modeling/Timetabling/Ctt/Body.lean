import Timetabling.Ctt.Header

/-! The part of a `.ctt` text below the header: section titles, each with the records that follow
    it, up to the line `END.` or the end of the text. A title may come again; its records then
    continue the section. -/

namespace Timetabling.Ctt

open Text

/-- A line cut into fields at its blanks. -/
structure Record where
  line : Line
  fields : List (List Char)
  deriving DecidableEq, Repr

/-- The record on a line. -/
def Record.ofLine (l : Line) : Record := ⟨l, words l.text⟩

/-- The titles that were given, and the records with the section that each belongs to, both in the
    order of the text. -/
structure Body where
  titles : List Section
  records : List (Section × Record)
  deriving DecidableEq, Repr

namespace Body

/-- The line that ends the text, whatever follows. -/
def endMark : List Char := ['E', 'N', 'D', '.']

/-- The section whose title and colon are the whole line. -/
def title? (text : List Char) : Option Section :=
  Section.all.find? fun s => s.title.toList ++ [':'] = text

/-- Reads the lines below the header; `current` is the section titled last. -/
def read (current : Option Section) : List Line → Except ReadError Body
  | [] => .ok ⟨[], []⟩
  | l :: ls =>
    if l.text = endMark then .ok ⟨[], []⟩
    else match title? l.text, current with
      | some s, _ => do
        let b ← read (some s) ls
        return { b with titles := s :: b.titles }
      | none, some s => do
        let b ← read current ls
        return { b with records := (s, .ofLine l) :: b.records }
      | none, none => l.fail (.outsideSections (String.ofList l.text))

/-- The records of one section, in the order of the text. -/
def recordsOf (b : Body) (s : Section) : List Record :=
  (b.records.filter fun r => r.1 = s).map Prod.snd

/-- The records of a section that is there, if it has to be, and as long as declared. -/
def counted (b : Body) (s : Section) (required : Bool) (declared : Option Nat) :
    Except ReadError (List Record) :=
  if required && !b.titles.contains s then .error (.missingSection s)
  else match declared with
    | some n =>
      if n = (b.recordsOf s).length then .ok (b.recordsOf s)
      else .error (.wrongCount s n (b.recordsOf s).length)
    | none => .ok (b.recordsOf s)

end Body

end Timetabling.Ctt
