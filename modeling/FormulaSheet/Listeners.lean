/-!
# Listeners

A list of listeners hands out ever new numbers. Listeners are told of an event in the order of
their registration.
-/

namespace FormulaSheet

abbrev ListenerId := Nat

/-- The registered listeners, in order, and the number of the next one. -/
structure Listeners where
  next : ListenerId
  ids : List ListenerId
deriving DecidableEq, Repr

namespace Listeners

def empty : Listeners := ⟨0, []⟩

/-- Registers a listener, whose number is `next`. -/
def add (l : Listeners) : Listeners := ⟨l.next + 1, l.ids ++ [l.next]⟩

def contains (l : Listeners) (id : ListenerId) : Bool := l.ids.contains id

def remove (l : Listeners) (id : ListenerId) : Listeners := ⟨l.next, l.ids.filter (· != id)⟩

/-- Takes all listeners out; their numbers are not used again. -/
def clear (l : Listeners) : Listeners := ⟨l.next, []⟩

end Listeners

end FormulaSheet
