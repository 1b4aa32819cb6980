/-
# A run is a list of commands

Every way to change a workspace is a command.  A command that ends in a fault changes nothing, and
the run goes on after it.  A search that meets a fault in matching has gone some way before, so this
fault is a reply, beside the workspace as the search has left it.
-/

import FormalLanguages.Workspace

namespace FormalLanguages

/-- What a new search is to enumerate. -/
inductive Query (P : Type)
  | elements
  | groups
  | terminals
  /-- The elements that match a pattern nobody else has. -/
  | matching (pattern : P)
  /-- The elements that match the pattern kept under a name, which is then shared. -/
  | sharing (name : String)
  deriving DecidableEq

/-- A change of a workspace.  Names say where things are kept. -/
inductive Command (P E : Type)
  /-- Change a container, and keep the element that was added, if a name is given. -/
  | edit (container : Nat) (change : E) (keep : Option String)
  /-- Remove an element from a container. -/
  | remove (container : Nat) (handle : String)
  /-- Free the removed elements of a container that nothing refers to. -/
  | reclaim (container : Nat)
  | copyHandle (source keep : String)
  /-- Let a handle that is kept refer to the element of another one. -/
  | assignHandle (target source : String)
  | dropHandle (name : String)
  /-- Keep a new search of a container, or of nothing. -/
  | search (target : Option (Nat × Query P)) (keep : String)
  | matchNext (search : String)
  | rewind (search : String)
  /-- Go on to the next match, and keep a copy of it, if a name is given. -/
  | next (search : String) (keep : Option String)
  /-- Go on to the next match until there is none, or a number of times. -/
  | drain (search : String) (limit : Option Nat)
  | copySearch (source keep : String)
  /-- Let a search of nothing start anew as a copy of another one. -/
  | assignSearch (target source : String)
  | dropSearch (name : String)
  /-- Keep a handle to the element of the last match of a search. -/
  | takeFromSearch (source keep : String)
  /-- Keep a handle to the element of a match. -/
  | takeFromMatch (source keep : String)
  | copyMatch (source keep : String)
  | dropMatch (name : String)
  | keepPattern (pattern : P) (keep : String)
  | dropPattern (name : String)
  deriving DecidableEq

/-- What a command answers. -/
inductive Reply
  | done
  | flag (holds : Bool)
  | count (count : Nat)
  | changed (answer : Answer)
  | handle (handle : Option Handle)
  | row (found : Option Match)
  | rows (found : List Match)
  /-- The search that was asked has lost its position in a fault of matching. -/
  | broken (fault : Fault)
  deriving DecidableEq

/-- What a step of a search answers, unless matching ended in a fault. -/
def Reply.orBroken {β : Type} (reply : β → Reply) : Except Fault β → Reply
  | .ok result => reply result
  | .error fault => .broken fault

namespace Workspace

variable {C α P E : Type} [Container C α P E]

/-- Change a container, and keep the element that was added, if a name is given. -/
def edit (workspace : Workspace C P) (number : Nat) (change : E) (keep : Option String) :
    Except Fault (Answer × Workspace C P) := do
  let (answer, container) ← Container.edit (← workspace.container number) change
  let workspace := workspace.setContainer number container
  match answer, keep with
  | .element key, some name => return (answer, ← workspace.keepHandle name ⟨number, key⟩)
  | _, _ => return (answer, workspace)

/-- Remove an element from the container that it belongs to, and tell whether it was live. -/
def remove (workspace : Workspace C P) (number : Nat) (handle : Handle) :
    Except Fault (Bool × Workspace C P) := do
  let container ← workspace.container number
  let graph := Container.graph container
  if handle.container ≠ number then .error (.foreignElement graph.nextId.kind)
  else
    let (removed, graph) ← graph.remove handle.key
    return (removed, workspace.setContainer number (Container.setGraph container graph))

/-- Free the removed elements of a container that nothing refers to, and count them. -/
def reclaim (workspace : Workspace C P) (number : Nat) :
    Except Fault (Nat × Workspace C P) := do
  let (count, container) ← Container.reclaim (← workspace.container number)
  return (count, workspace.setContainer number container)

/-- The axis that a query asks for. -/
def axisOf (workspace : Workspace C P) : Query P → Except Fault (Axis P × Workspace C P)
  | .elements => return (.elements none, workspace)
  | .groups => return (.groups 0, workspace)
  | .terminals => return (.terminals 0, workspace)
  | .matching pattern =>
      let (shared, workspace) := workspace.share pattern
      return (.matching shared none, workspace)
  | .sharing name => return (.matching (← register workspace.patterns name) none, workspace)

/-- Keep a new search of a container, or of nothing. -/
def newSearch (workspace : Workspace C P) (target : Option (Nat × Query P)) (keep : String) :
    Except Fault (Workspace C P) := do
  match target with
  | none => workspace.keepSearch keep .unbound
  | some (number, query) =>
      let _ ← workspace.container number
      let (axis, workspace) ← workspace.axisOf query
      workspace.keepSearch keep (.along number axis)

/-- Keep a handle to the element of a match, if it has one. -/
def takeElement (workspace : Workspace C P) (found : Match) (keep : String) :
    Except Fault (Reply × Workspace C P) := do
  match found.element with
  | none => return (.handle none, workspace)
  | some handle => return (.handle (some handle), ← workspace.keepHandle keep handle)

/-- Carry out a command. -/
def step (workspace : Workspace C P) : Command P E → Except Fault (Reply × Workspace C P)
  | .edit number change keep => do
      let (answer, workspace) ← workspace.edit number change keep
      return (.changed answer, workspace)
  | .remove number name => do
      let (removed, workspace) ←
        workspace.remove number (← register workspace.handles name)
      return (.flag removed, workspace)
  | .reclaim number => do
      let (count, workspace) ← workspace.reclaim number
      return (.count count, workspace)
  | .copyHandle source keep => do
      let handle ← register workspace.handles source
      return (.done, ← workspace.keepHandle keep handle)
  | .assignHandle target source => do
      let _ ← register workspace.handles target
      let handle ← register workspace.handles source
      return (.handle (some handle), ← workspace.keepHandle target handle)
  | .dropHandle name => do
      let (full, workspace) ← workspace.dropHandle name
      return (.flag full, workspace)
  | .search target keep => return (.done, ← workspace.newSearch target keep)
  | .matchNext name => do
      let search ← register workspace.searches name
      let (found, search) ← search.matchNext workspace.containers
      return (.orBroken .flag found, ← workspace.keepSearch name search)
  | .rewind name => do
      let search ← register workspace.searches name
      let search ← search.rewind workspace.containers
      return (.done, ← workspace.keepSearch name search)
  | .next name keep => do
      let search ← register workspace.searches name
      let (found, search) ← search.matchNext workspace.containers
      let workspace ← workspace.keepSearch name search
      match found, keep with
      | .error fault, _ => return (.broken fault, workspace)
      | .ok false, _ => return (.row none, workspace)
      | .ok true, none => return (.row (some search.current), workspace)
      | .ok true, some keep =>
          return (.row (some search.current), ← workspace.keepMatch keep search.current)
  | .drain name limit => do
      let search ← register workspace.searches name
      let (rows, search) ← search.takeUpTo workspace.containers limit
      return (.orBroken .rows rows, ← workspace.keepSearch name search)
  | .copySearch source keep => do
      let search ← register workspace.searches source
      return (.done, ← workspace.keepSearch keep search.copy)
  | .assignSearch target source => do
      let search ← register workspace.searches target
      let copied ← register workspace.searches source
      if search.isBound then .error .boundAssignment
      else return (.flag copied.isBound, ← workspace.keepSearch target copied.copy)
  | .dropSearch name => do
      let (full, workspace) ← workspace.dropSearch name
      return (.flag full, workspace)
  | .takeFromSearch source keep => do
      workspace.takeElement (← register workspace.searches source).current keep
  | .takeFromMatch source keep => do
      workspace.takeElement (← register workspace.results source) keep
  | .copyMatch source keep => do
      let found ← register workspace.results source
      return (.row (some found), ← workspace.keepMatch keep found)
  | .dropMatch name => do
      let (full, workspace) ← workspace.dropMatch name
      return (.flag full, workspace)
  | .keepPattern pattern keep => return (.done, workspace.keepPattern keep pattern)
  | .dropPattern name =>
      let (full, workspace) := workspace.dropPattern name
      return (.flag full, workspace)

/-- Carry out commands in order, and collect what they answer.  A command that ends in a fault
leaves the workspace as it is. -/
def run (workspace : Workspace C P) :
    List (Command P E) → List (Except Fault Reply) × Workspace C P
  | [] => ([], workspace)
  | command :: rest =>
      match workspace.step command with
      | .ok (reply, workspace) =>
          let (replies, last) := workspace.run rest
          (.ok reply :: replies, last)
      | .error fault =>
          let (replies, last) := workspace.run rest
          (.error fault :: replies, last)

end Workspace

end FormalLanguages
