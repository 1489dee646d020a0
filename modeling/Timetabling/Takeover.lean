/-! The outcome of putting something where it may be in the way of something else. -/

namespace Timetabling

/-- What came of a takeover and the state after it: a plain insertion, the displacement of the one
    occupant in the way, or nothing because it was blocked. -/
inductive Takeover (state occupant : Type) where
  | inserted (next : state)
  | displaced (old : occupant) (next : state)
  | blocked (next : state)
  deriving DecidableEq, Repr

namespace Takeover

variable {state occupant : Type}

/-- The state afterwards. -/
def outcome : Takeover state occupant → state
  | inserted next => next
  | displaced _ next => next
  | blocked next => next

/-- Whether the takeover took place. -/
def isPlaced : Takeover state occupant → Bool
  | blocked _ => false
  | _ => true

end Takeover

end Timetabling
