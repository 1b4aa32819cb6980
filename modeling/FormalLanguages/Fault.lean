/-
# Faults are broken promises of the caller

A fault ends an operation that should not have been asked for: a key was used after its value
had been freed, a reference was given back twice, an element was handed to a container it does
not belong to.  An operation that can end in a fault looks for it before it changes anything, and
returns nothing else in that case, so that the fault leaves everything as it was.  Where something
has been changed already when the fault occurs, the operation returns that beside the fault.
Requests that a container may decline in the ordinary course of things are refusals, and are kept
apart.
-/

import FormalLanguages.Index.Kind
import FormalLanguages.Key

namespace FormalLanguages

/-- Why an operation could not be carried out. -/
inductive Fault
  /-- A position lies outside a table. -/
  | outOfBounds (length index : Nat)
  /-- The value at a key has been freed. -/
  | staleKey (key : Key)
  /-- There is no slot for another value, and no number for another slot. -/
  | fullStore
  /-- A reference was given back that nobody had taken. -/
  | unheldRelease (key : Key)
  /-- A value was to be freed that had not been removed. -/
  | liveReclaim (key : Key)
  /-- A value was to be freed that something still refers to. -/
  | referencedReclaim (key : Key)
  /-- An index has no successor of its width. -/
  | overflow (kind : IndexKind)
  /-- A search that is attached to a container was to be replaced. -/
  | boundAssignment
  /-- An element was to be removed from a container that does not own it. -/
  | foreignElement (kind : IndexKind)
  /-- A group is asked for that was never added. -/
  | missingGroup (group : Nat)
  /-- A walk met more elements than are stored. -/
  | endlessWalk
  /-- No container has this number. -/
  | missingContainer (container : Nat)
  /-- Nothing is kept under this name. -/
  | emptyRegister (name : String)
  deriving DecidableEq, Repr

namespace Fault

/-- The owner of the elements that a family of indices counts, as it is called in messages. -/
private def ownership : IndexKind → String
  | .production => "Production belongs to a different grammar"
  | .transition => "Transition belongs to a different automaton"
  | .state => "State belongs to a different automaton"

/-- The text that tells a user about a fault. -/
def message : Fault → String
  | outOfBounds length index =>
      "index out of bounds: the len is " ++ toString length ++ " but the index is " ++
        toString index
  | staleKey key => "Stale arena key " ++ key.describe
  | fullStore => "Arena is full: TryFromIntError(())"
  | unheldRelease key => "Released an unheld node " ++ key.describe
  | liveReclaim key => "Reclaiming live node " ++ key.describe
  | referencedReclaim key =>
      "assertion `left == right` failed: Reclaiming referenced node " ++ key.describe
  | overflow kind => kind.name ++ " overflowed its storage type"
  | boundAssignment => "Illegal assignment to an initialized generator."
  | foreignElement kind => ownership kind
  | missingGroup group => "no group " ++ toString group
  | endlessWalk => "a chain of elements does not end"
  | missingContainer container => "no container " ++ toString container
  | emptyRegister name => "no register " ++ name

end Fault

end FormalLanguages
