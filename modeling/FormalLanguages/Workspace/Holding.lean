/-
# A reference is taken and given back where a handle comes and goes

A handle takes a reference to its element when it is made, and gives the reference back when it is
dropped.  What a workspace keeps is made of handles: a match has one for its element, a search has
one in its last match and one at its position.  So has the code that carries out a command, as long
as it has an element in hand.

Here every command makes and drops its handles one at a time, in the order in which they come and
go: a search that steps over an element makes a handle to the next one before it drops its own, one
that is rewound drops its match first, and whatever is stored in the place of something else is
stored before that is dropped.  At the end of a command everything that is not kept has been
dropped.  In `step` of a workspace, only the difference between what was kept before and after is
counted.
-/

import FormalLanguages.Workspace.Command

namespace FormalLanguages

variable {C α P E : Type} [Container C α P E]

/-- The handle at the position of a search. -/
def Search.position (search : Search P) : Option Handle :=
  search.target.bind fun (number, axis) => axis.cursor.map (Handle.mk number)

namespace Holding

/-- Make a handle to an element. -/
def hold (handle : Handle) (workspace : Workspace C P) : Except Fault (Workspace C P) :=
  workspace.adjust Store.hold handle

/-- Drop a handle. -/
def release (handle : Handle) (workspace : Workspace C P) : Except Fault (Workspace C P) :=
  workspace.adjust Store.release handle

/-- Make a handle, if there is an element. -/
def holdAny : Option Handle → Workspace C P → Except Fault (Workspace C P)
  | none, workspace => return workspace
  | some handle, workspace => hold handle workspace

/-- Drop a handle, if there is one. -/
def releaseAny : Option Handle → Workspace C P → Except Fault (Workspace C P)
  | none, workspace => return workspace
  | some handle, workspace => release handle workspace

/-- Let a handle refer to the element of another one, which may be the same element. -/
def reassign (target source : Handle) (workspace : Workspace C P) :
    Except Fault (Workspace C P) := do
  if target = source then return workspace
  else
    let workspace ← hold source workspace
    release target workspace

section Walking

variable (number : Nat) (confined : Bool)

/-- Step with a handle over tombstones. -/
def nextLiveWithin : (bound : Nat) → (key : Key) → Workspace C P →
    Except Fault (Option Key × Workspace C P)
  | 0, _, _ => .error .endlessWalk
  | bound + 1, key, workspace => do
      let graph := Container.graph (← workspace.container number)
      if ← graph.store.isDeleted key then
        match ← graph.findNext key confined with
        | none => return (none, ← release ⟨number, key⟩ workspace)
        | some next =>
            let workspace ← hold ⟨number, next⟩ workspace
            let workspace ← release ⟨number, key⟩ workspace
            nextLiveWithin bound next workspace
      else return (some key, workspace)

/-- Take the handle at a position, and step with it to the first live element. -/
def nextLive (cursor : Option Key) (workspace : Workspace C P) :
    Except Fault (Option Key × Workspace C P) := do
  match cursor with
  | none => return (none, workspace)
  | some key =>
      let graph := Container.graph (← workspace.container number)
      nextLiveWithin number confined graph.store.slots.size key workspace

/-- Go with a handle through the elements from its own on, until one matches a pattern.  The handle
is dropped if none does, or if matching ends in a fault. -/
def scanWithin (pattern : P) : (bound : Nat) → (key : Key) → Slots → Workspace C P →
    Except Fault (Option (Graph.Stop Slots) × Workspace C P)
  | 0, _, _, _ => .error .endlessWalk
  | bound + 1, key, slots, workspace => do
      let graph := Container.graph (← workspace.container number)
      let next ← graph.findNext key confined
      let element ← graph.element key
      let (accepted, slots) :=
        if element.deleted then (.ok false, slots) else examine (C := C) pattern element slots
      match accepted, next with
      | .error fault, _ =>
          return (some ⟨key, next, .error fault⟩, ← release ⟨number, key⟩ workspace)
      | .ok true, _ => return (some ⟨key, next, .ok slots⟩, workspace)
      | .ok false, some next => do
          let workspace ← hold ⟨number, next⟩ workspace
          let workspace ← release ⟨number, key⟩ workspace
          scanWithin pattern bound next slots.clear workspace
      | .ok false, none => return (none, ← release ⟨number, key⟩ workspace)

end Walking

/-- Set a search to its beginning. -/
def rewind (search : Search P) (workspace : Workspace C P) :
    Except Fault (Search P × Workspace C P) := do
  let workspace ← releaseAny search.current.element workspace
  match search.target with
  | none => return ({ progress := .running }, workspace)
  | some (number, axis) =>
      let axis ← axis.start (← workspace.container number)
      let rewound : Search P := { target := some (number, axis), progress := .running }
      let workspace ← holdAny rewound.position workspace
      let workspace ← releaseAny search.position workspace
      return (rewound, workspace)

/-- Come to an element with its handle in hand.  The position of the search, from which the handle
was taken, gets a new one, and the match gets the one in hand. -/
def arrive (search : Search P) (number : Nat) (axis : Axis P) (key : Key) (slots : Slots)
    (workspace : Workspace C P) : Except Fault (Search P × Workspace C P) := do
  let workspace ← holdAny (axis.cursor.map (Handle.mk number)) workspace
  let found ← Axis.rowOf (← workspace.container number) number key slots
  let workspace ← releaseAny search.current.element workspace
  let current := { search.current with element := found.element, group := found.group, slots }
  return ({ search with target := some (number, axis), current }, workspace)

/-- What a step to a group or a terminal writes to a match. -/
def note (axis : Axis P) (found current : Match) : Match :=
  match axis with
  | .groups _ => { current with group := found.group }
  | _ => { current with symbol := found.symbol }

/-- A step to a group or a terminal, for which no handles are made. -/
def count (search : Search P) (number : Nat) :
    Except Fault (Option (Match × Axis P)) → Except Fault Bool × Search P
  | .error fault => (.error fault, search.lose)
  | .ok none => (.ok false, search)
  | .ok (some (found, axis)) =>
      let current := note axis found search.current
      (.ok true, { search with target := some (number, axis), current })

/-- Go on to the next match, and tell whether there is one. -/
def advance (search : Search P) (workspace : Workspace C P) :
    Except Fault (Except Fault Bool × Search P × Workspace C P) := do
  match search.target with
  | none => return (.ok false, search, workspace)
  | some (number, .elements cursor) =>
      match ← nextLive number false cursor workspace with
      | (none, workspace) => return (.ok false, search.lose, workspace)
      | (some key, workspace) =>
          let next ← (Container.graph (← workspace.container number)).findNext key false
          return (.ok true,
            ← arrive search number (.elements next) key search.current.slots workspace)
  | some (number, .matching pattern cursor) =>
      let confined := (Container.scope C pattern.pattern).isSome
      match ← nextLive number confined cursor workspace with
      | (none, workspace) => return (.ok false, search.lose, workspace)
      | (some key, workspace) =>
          let bound := (Container.graph (← workspace.container number)).store.slots.size
          let slots := List.replicate (Container.slotCount C pattern.pattern) none
          match ← scanWithin number confined pattern.pattern bound key slots workspace with
          | (none, workspace) => return (.ok false, search.lose, workspace)
          | (some ⟨_, _, .error fault⟩, workspace) => return (.error fault, search.lose, workspace)
          | (some ⟨key, next, .ok slots⟩, workspace) =>
              return (.ok true,
                ← arrive search number (.matching pattern next) key slots workspace)
  | some (number, axis) =>
      let outcome ← axis.advance (← workspace.container number) number
      let (found, search) := count search number outcome
      return (found, search, workspace)

/-- Go on to the next match, and drop everything if there is none. -/
def goOn (search : Search P) (workspace : Workspace C P) :
    Except Fault (Except Fault Bool × Search P × Workspace C P) := do
  match ← advance search workspace with
  | (.ok false, search, workspace) =>
      let workspace ← releaseAny search.current.element workspace
      let workspace ← releaseAny search.position workspace
      return (.ok false, search.exhaust, workspace)
  | outcome => return outcome

/-- Go on to the next match of a search in any state. -/
def matchNext (search : Search P) (workspace : Workspace C P) :
    Except Fault (Except Fault Bool × Search P × Workspace C P) := do
  match search.progress with
  | .unstarted =>
      let (search, workspace) ← rewind search workspace
      goOn search workspace
  | .running => goOn search workspace
  | .exhausted => return (.ok false, search, workspace)

/-- Go on to the next match, and copy it. -/
def next (search : Search P) (workspace : Workspace C P) :
    Except Fault (Except Fault (Option Match) × Search P × Workspace C P) := do
  match ← matchNext search workspace with
  | (.error fault, search, workspace) => return (.error fault, search, workspace)
  | (.ok false, search, workspace) => return (.ok none, search, workspace)
  | (.ok true, search, workspace) =>
      let workspace ← holdAny search.current.element workspace
      return (.ok (some search.current), search, workspace)

/-- Go on at most a number of times.  Each match is copied, shown and dropped. -/
def take : (limit : Nat) → Search P → Workspace C P →
    Except Fault (Except Fault (List Match) × Search P × Workspace C P)
  | 0, search, workspace => return (.ok [], search, workspace)
  | limit + 1, search, workspace => do
      match ← next search workspace with
      | (.error fault, search, workspace) => return (.error fault, search, workspace)
      | (.ok none, search, workspace) => return (.ok [], search, workspace)
      | (.ok (some found), search, workspace) =>
          let workspace ← releaseAny found.element workspace
          let (rows, last, workspace) ← take limit search workspace
          return (rows.map (found :: ·), last, workspace)

/-- Go on to the end, or at most a number of times. -/
def takeUpTo (limit : Option Nat) (search : Search P) (workspace : Workspace C P) :
    Except Fault (Except Fault (List Match) × Search P × Workspace C P) := do
  match limit with
  | some limit => take limit search workspace
  | none =>
      match ← take ((← search.rowBound workspace.containers) + 1) search workspace with
      | (.error fault, last, workspace) => return (.error fault, last, workspace)
      | (.ok rows, last, workspace) =>
          if last.progress = .exhausted then return (.ok rows, last, workspace)
          else .error .endlessWalk

/-- Drop a search, if there is one: the handle at its position, then that in its match. -/
def releaseSearch (search : Option (Search P)) (workspace : Workspace C P) :
    Except Fault (Workspace C P) := do
  let workspace ← releaseAny (search.bind Search.position) workspace
  releaseAny (search.bind (·.current.element)) workspace

section Storing

variable (name : String) (workspace : Workspace C P)

/-- Store a handle under a name, and drop the one in whose place it comes. -/
def storeHandle (handle : Handle) : Except Fault (Workspace C P) :=
  releaseAny (workspace.handles.get? name)
    { workspace with handles := workspace.handles.insert name handle }

/-- Store a match under a name, and drop the one in whose place it comes. -/
def storeMatch (found : Match) : Except Fault (Workspace C P) :=
  releaseAny ((workspace.results.get? name).bind Match.element)
    { workspace with results := workspace.results.insert name found }

/-- Store a search under a name, and drop the one in whose place it comes. -/
def storeSearch (search : Search P) : Except Fault (Workspace C P) :=
  releaseSearch (workspace.searches.get? name)
    { workspace with searches := workspace.searches.insert name search }

/-- A search that was changed where it is stored. -/
def writeSearch (search : Search P) : Workspace C P :=
  { workspace with searches := workspace.searches.insert name search }

/-- Make a handle to the element of a match, if it has one, and store it. -/
def takeElement (found : Match) : Except Fault (Reply × Workspace C P) := do
  match found.element with
  | none => return (.handle none, workspace)
  | some handle =>
      let workspace ← hold handle workspace
      return (.handle (some handle), ← storeHandle name workspace handle)

end Storing

/-- Change a container.  For an element that was added a handle is made, which is dropped unless it
is kept. -/
def edit (workspace : Workspace C P) (number : Nat) (change : E) (keep : Option String) :
    Except Fault (Answer × Workspace C P) := do
  let (answer, container) ← Container.edit (← workspace.container number) change
  let workspace := workspace.setContainer number container
  match answer, keep with
  | .element key, some name =>
      let workspace ← hold ⟨number, key⟩ workspace
      return (answer, ← storeHandle name workspace ⟨number, key⟩)
  | .element key, none =>
      let workspace ← hold ⟨number, key⟩ workspace
      return (answer, ← release ⟨number, key⟩ workspace)
  | _, _ => return (answer, workspace)

/-- Carry out a command, handle by handle. -/
def step (workspace : Workspace C P) : Command P E → Except Fault (Reply × Workspace C P)
  | .edit number change keep => do
      let (answer, workspace) ← edit workspace number change keep
      return (.changed answer, workspace)
  | .copyHandle source keep => do
      let handle ← Workspace.register workspace.handles source
      let workspace ← hold handle workspace
      return (.done, ← storeHandle keep workspace handle)
  | .assignHandle target source => do
      let before ← Workspace.register workspace.handles target
      let handle ← Workspace.register workspace.handles source
      let workspace ← reassign before handle workspace
      return (.handle (some handle),
        { workspace with handles := workspace.handles.insert target handle })
  | .dropHandle name => do
      let before := workspace.handles.get? name
      let workspace ←
        releaseAny before { workspace with handles := workspace.handles.erase name }
      return (.flag before.isSome, workspace)
  | .search none keep => return (.done, ← storeSearch keep workspace .unbound)
  | .search (some (number, query)) keep => do
      let _ ← workspace.container number
      let (axis, workspace) ← workspace.axisOf query
      return (.done, ← storeSearch keep workspace (.along number axis))
  | .matchNext name => do
      let search ← Workspace.register workspace.searches name
      let (found, search, workspace) ← matchNext search workspace
      return (.orBroken .flag found, writeSearch name workspace search)
  | .rewind name => do
      let search ← Workspace.register workspace.searches name
      let (search, workspace) ← rewind search workspace
      return (.done, writeSearch name workspace search)
  | .next name keep => do
      let search ← Workspace.register workspace.searches name
      let (found, search, workspace) ← next search workspace
      let workspace := writeSearch name workspace search
      match found, keep with
      | .error fault, _ => return (.broken fault, workspace)
      | .ok none, _ => return (.row none, workspace)
      | .ok (some found), none => return (.row (some found), ← releaseAny found.element workspace)
      | .ok (some found), some keep =>
          return (.row (some found), ← storeMatch keep workspace found)
  | .drain name limit => do
      let search ← Workspace.register workspace.searches name
      let (rows, search, workspace) ← takeUpTo limit search workspace
      return (.orBroken .rows rows, writeSearch name workspace search)
  | .copySearch source keep => do
      let search ← Workspace.register workspace.searches source
      let workspace ← holdAny search.position workspace
      return (.done, ← storeSearch keep workspace search.copy)
  | .assignSearch target source => do
      let search ← Workspace.register workspace.searches target
      let copied ← Workspace.register workspace.searches source
      if search.isBound then .error .boundAssignment
      else
        let workspace ← holdAny copied.position workspace
        return (.flag copied.isBound, ← storeSearch target workspace copied.copy)
  | .dropSearch name => do
      let before := workspace.searches.get? name
      let workspace ←
        releaseSearch before { workspace with searches := workspace.searches.erase name }
      return (.flag before.isSome, workspace)
  | .takeFromSearch source keep => do
      takeElement keep workspace (← Workspace.register workspace.searches source).current
  | .takeFromMatch source keep => do
      takeElement keep workspace (← Workspace.register workspace.results source)
  | .copyMatch source keep => do
      let found ← Workspace.register workspace.results source
      let workspace ← holdAny found.element workspace
      return (.row (some found), ← storeMatch keep workspace found)
  | .dropMatch name => do
      let before := workspace.results.get? name
      let workspace ← releaseAny (before.bind Match.element)
        { workspace with results := workspace.results.erase name }
      return (.flag before.isSome, workspace)
  -- These make no handles and drop none.
  | .remove number name => workspace.step (.remove number name : Command P E)
  | .reclaim number => workspace.step (.reclaim number : Command P E)
  | .keepPattern pattern keep => workspace.step (.keepPattern pattern keep : Command P E)
  | .dropPattern name => workspace.step (.dropPattern name : Command P E)

/-- Carry out commands in order, and collect what they answer.  A command that ends in a fault
leaves the workspace as it is. -/
def run (workspace : Workspace C P) :
    List (Command P E) → List (Except Fault Reply) × Workspace C P
  | [] => ([], workspace)
  | command :: rest =>
      match step workspace command with
      | .ok (reply, workspace) =>
          let (replies, last) := run workspace rest
          (.ok reply :: replies, last)
      | .error fault =>
          let (replies, last) := run workspace rest
          (.error fault :: replies, last)

/-- The workspace that a run of commands reaches from a number of new containers. -/
def reached (start : C) (count : Nat) (commands : List (Command P E)) : Workspace C P :=
  (run (Workspace.ofContainers (Array.replicate count start)) commands).2

end Holding

end FormalLanguages
