/-
# A search remembers where to go on, not what it has seen

A search runs along one axis of a container: its elements, its groups, its terminals, or the
elements that match a pattern.  It produces one match at a time, in the order of the axis, from
the container as it is at that moment.  Between two matches it remembers its last match and its
position, one step ahead of it; the element at either is kept stored by the reference that the
search holds on it, even if it has been removed, so a search always finds its way on.

A search that has not been started rewinds itself at its first step, and one that is exhausted
stays exhausted until it is rewound.  A copy of a search starts anew: it carries the position
along, and holds a reference for it, but never goes on from there.

A pattern is matched against one element after the other with the same slots, which are emptied in
between.  If it asks for a slot that does not exist, the step ends in that fault, and the search is
left where it was caught, without a position.

The functions here only read containers.  The elements to which a search refers are listed by
`holds`, and whoever keeps a search owes a reference for each of them.
-/

import FormalLanguages.Container
import FormalLanguages.Match

namespace FormalLanguages

/-- A pattern with an identity, by which searches that share it can be counted. -/
structure Shared (P : Type) where
  serial : Nat
  pattern : P
  deriving DecidableEq

/-- What a search enumerates, and how far it has come. -/
inductive Axis (P : Type)
  /-- The live elements; the cursor is at the next one to look at. -/
  | elements (cursor : Option Key)
  /-- The groups that the container shows; the offset is the next one to look at. -/
  | groups (offset : Nat)
  /-- The terminals; the offset is the place of the next one. -/
  | terminals (offset : Nat)
  /-- The live elements that match a pattern. -/
  | matching (pattern : Shared P) (cursor : Option Key)
  deriving DecidableEq

/-- How far a search has come. -/
inductive Progress
  | unstarted
  | running
  | exhausted
  deriving DecidableEq, Repr

/-- A search of one container, or of none, with the match it found last. -/
structure Search (P : Type) where
  target : Option (Nat × Axis P) := none
  progress : Progress := .unstarted
  current : Match := .empty
  deriving DecidableEq

variable {C α P E : Type} [Container C α P E]

/-- The container with a number. -/
def containerAt (containers : Array C) (number : Nat) : Except Fault C :=
  match containers[number]? with
  | some container => .ok container
  | none => .error (.missingContainer number)

/-- Match an element against a pattern, with the given slots to begin with. -/
def examine (pattern : P) (element : Element α) (slots : Slots) : Except Fault Bool × Slots :=
  Constraint.solve (Container.constraints C pattern element) slots

/-- As many slots, none of them filled. -/
def Slots.clear (slots : Slots) : Slots := slots.map fun _ => none

namespace Axis

/-- The element that an axis is positioned at. -/
def cursor : Axis P → Option Key
  | elements cursor => cursor
  | matching _ cursor => cursor
  | groups _ => none
  | terminals _ => none

/-- The axis without a position at an element. -/
def detach : Axis P → Axis P
  | elements _ => elements none
  | matching pattern _ => matching pattern none
  | groups offset => groups offset
  | terminals offset => terminals offset

/-- The axis at its beginning in a container. -/
def start (container : C) : Axis P → Except Fault (Axis P)
  | elements _ => return elements (← (Container.graph container).firstElement)
  | groups _ => return groups (← Container.firstGroup container)
  | terminals _ => return terminals 1
  | matching pattern _ =>
      match Container.scope C pattern.pattern with
      | some group => return matching pattern ((Container.graph container).head? group)
      | none => return matching pattern (← (Container.graph container).firstElement)

/-- The match of an element with the given slots. -/
def rowOf (container : C) (number : Nat) (key : Key) (slots : Slots) : Except Fault Match := do
  let element ← (Container.graph container).element key
  return { element := some ⟨number, key⟩, group := some element.group, slots }

/-- The next match of a container with a number, and the axis behind it.  Matching an element
against a pattern may end in a fault, and with it the search for the match. -/
def advance (container : C) (number : Nat) :
    Axis P → Except Fault (Except Fault (Option (Match × Axis P)))
  | elements cursor => do
      let graph := Container.graph container
      match ← graph.nextLive false cursor with
      | none => return .ok none
      | some key =>
          let next ← graph.findNext key false
          return .ok (some (← rowOf container number key [], elements next))
  | matching pattern cursor => do
      let confined := (Container.scope C pattern.pattern).isSome
      let slots := List.replicate (Container.slotCount C pattern.pattern) none
      match ← (Container.graph container).seek confined (examine (C := C) pattern.pattern)
          Slots.clear slots cursor with
      | none => return .ok none
      | some ⟨_, _, .error fault⟩ => return .error fault
      | some ⟨key, next, .ok slots⟩ =>
          return .ok (some (← rowOf container number key slots, matching pattern next))
  | groups offset => do
      let count := (Container.graph container).groups.size
      match ← (List.range' offset (count - offset)).findM? (Container.shows container) with
      | none => return .ok none
      | some group => return .ok (some ({ group := some group }, groups (group + 1)))
  | terminals offset =>
      if offset ≤ Container.terminalCount container then
        return .ok (some ({ symbol := some (.ofTerminal offset) }, terminals (offset + 1)))
      else
        return .ok none

end Axis

namespace Search

/-- The search of nothing, which finds nothing. -/
def unbound : Search P := {}

/-- A search of a container along an axis, not yet started. -/
def along (number : Nat) (axis : Axis P) : Search P := { target := some (number, axis) }

/-- Whether a search is attached to a container. -/
def isBound (search : Search P) : Bool := search.target.isSome

/-- The elements to which a search refers: that of its last match, and that of its position. -/
def holds (search : Search P) : List Handle :=
  search.current.element.toList ++
    match search.target with
    | none => []
    | some (number, axis) => axis.cursor.toList.map (Handle.mk number)

/-- A copy that starts anew. -/
def copy (search : Search P) : Search P := { target := search.target }

/-- Set a search to its beginning. -/
def rewind (containers : Array C) (search : Search P) : Except Fault (Search P) := do
  match search.target with
  | none => return { progress := .running }
  | some (number, axis) =>
      let container ← containerAt containers number
      return { target := some (number, ← axis.start container), progress := .running }

/-- A search after its last match: without a match and without a position at an element. -/
def exhaust (search : Search P) : Search P :=
  { target := search.target.map fun (number, axis) => (number, axis.detach)
    progress := .exhausted }

/-- A search after a fault in matching: it has lost its position, but has not come to its end. -/
def lose (search : Search P) : Search P :=
  { search with target := search.target.map fun (number, axis) => (number, axis.detach) }

/-- Go on to the next match of a search that is running. -/
def advance (containers : Array C) (search : Search P) :
    Except Fault (Except Fault Bool × Search P) := do
  match search.target with
  | none => return (.ok false, search.exhaust)
  | some (number, axis) =>
      let container ← containerAt containers number
      match ← axis.advance container number with
      | .error fault => return (.error fault, search.lose)
      | .ok none => return (.ok false, search.exhaust)
      | .ok (some (found, axis)) =>
          return (.ok true, { search with target := some (number, axis), current := found })

/-- Go on to the next match, and tell whether there is one. -/
def matchNext (containers : Array C) (search : Search P) :
    Except Fault (Except Fault Bool × Search P) := do
  match search.progress with
  | .unstarted => (← search.rewind containers).advance containers
  | .running => search.advance containers
  | .exhausted => return (.ok false, search)

/-- At most the given number of next matches, and the search behind them. -/
def take (containers : Array C) (search : Search P) :
    Nat → Except Fault (Except Fault (List Match) × Search P)
  | 0 => return (.ok [], search)
  | limit + 1 => do
      let (found, search) ← search.matchNext containers
      match found with
      | .error fault => return (.error fault, search)
      | .ok false => return (.ok [], search)
      | .ok true =>
          let (rows, last) ← search.take containers limit
          return (rows.map (search.current :: ·), last)

/-- A number of matches that no search of a container exceeds from its beginning to its end. -/
def rowBound (containers : Array C) (search : Search P) : Except Fault Nat := do
  match search.target with
  | none => return 0
  | some (number, _) =>
      let container ← containerAt containers number
      let graph := Container.graph container
      return graph.store.slots.size + graph.groups.size + Container.terminalCount container

/-- All the matches that are left, and the exhausted search. -/
def drain (containers : Array C) (search : Search P) :
    Except Fault (Except Fault (List Match) × Search P) := do
  match ← search.take containers ((← search.rowBound containers) + 1) with
  | (.error fault, last) => return (.error fault, last)
  | (.ok rows, last) =>
      if last.progress = .exhausted then return (.ok rows, last) else .error .endlessWalk

/-- The matches that are left, or the first of them if there is a limit. -/
def takeUpTo (containers : Array C) (search : Search P) :
    (limit : Option Nat) → Except Fault (Except Fault (List Match) × Search P)
  | some limit => search.take containers limit
  | none => search.drain containers

end Search

end FormalLanguages
