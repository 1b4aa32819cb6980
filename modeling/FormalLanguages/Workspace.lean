/-
# Everything that is kept holds a reference

A workspace has containers of one type, and keeps handles, matches, searches and patterns under
names.  Whatever is kept refers to elements: a handle to its element, a match to the element it
found, a search to that of its last match and that of its position.  Each of these references is
counted in the store of the element, so that the element is not freed under its holder.

The count follows what is kept at one place, `exchange`: keeping something under a name first
takes the references of what comes and then gives back those of what goes.  Nothing can be freed
in between, so an element that both refer to stays stored.
-/

import FormalLanguages.Search
import FormalLanguages.Table

namespace FormalLanguages

/-- Containers, and what is kept of them under names.  The serial is the identity of the next
pattern. -/
structure Workspace (C P : Type) where
  containers : Array C
  handles : Table String Handle := .empty
  results : Table String Match := .empty
  searches : Table String (Search P) := .empty
  patterns : Table String (Shared P) := .empty
  serial : Nat := 0

namespace Workspace

variable {C α P E : Type} [Container C α P E]

/-- The workspace with the given containers in which nothing is kept. -/
def ofContainers (containers : Array C) : Workspace C P := { containers }

/-- What is kept under a name. -/
def register {ν : Type} (table : Table String ν) (name : String) : Except Fault ν :=
  match table.get? name with
  | some value => .ok value
  | none => .error (.emptyRegister name)

/-- The container with a number. -/
def container (workspace : Workspace C P) (number : Nat) : Except Fault C :=
  containerAt workspace.containers number

/-- Replace the container with a number. -/
def setContainer (workspace : Workspace C P) (number : Nat) (container : C) : Workspace C P :=
  { workspace with containers := workspace.containers.setIfInBounds number container }

/-- What can be read of the element of a handle. -/
def read (workspace : Workspace C P) (handle : Handle) : Except Fault (Element α) := do
  (Container.graph (← workspace.container handle.container)).element handle.key

/-- Change how often the element of a handle is referred to. -/
def adjust (change : Store (Node α) → Key → Except Fault (Store (Node α)))
    (workspace : Workspace C P) (handle : Handle) : Except Fault (Workspace C P) := do
  let container ← workspace.container handle.container
  let graph := Container.graph container
  let store ← change graph.store handle.key
  return workspace.setContainer handle.container (Container.setGraph container { graph with store })

/-- Take a reference for each handle that comes, then give one back for each that goes. -/
def exchange (workspace : Workspace C P) (come go : List Handle) :
    Except Fault (Workspace C P) := do
  let workspace ← come.foldlM (adjust Store.hold) workspace
  go.foldlM (adjust Store.release) workspace

/-- The elements to which a match refers. -/
def heldByMatch (found : Match) : List Handle := found.element.toList

/-- Keep a handle under a name, in the place of the one kept there before. -/
def keepHandle (workspace : Workspace C P) (name : String) (handle : Handle) :
    Except Fault (Workspace C P) := do
  let before := (workspace.handles.get? name).toList
  let workspace ← workspace.exchange [handle] before
  return { workspace with handles := workspace.handles.insert name handle }

/-- Keep a match under a name, in the place of the one kept there before. -/
def keepMatch (workspace : Workspace C P) (name : String) (found : Match) :
    Except Fault (Workspace C P) := do
  let before := (workspace.results.get? name).toList.flatMap heldByMatch
  let workspace ← workspace.exchange (heldByMatch found) before
  return { workspace with results := workspace.results.insert name found }

/-- Keep a search under a name, in the place of the one kept there before. -/
def keepSearch (workspace : Workspace C P) (name : String) (search : Search P) :
    Except Fault (Workspace C P) := do
  let before := (workspace.searches.get? name).toList.flatMap Search.holds
  let workspace ← workspace.exchange search.holds before
  return { workspace with searches := workspace.searches.insert name search }

/-- Drop a handle, and tell whether there was one. -/
def dropHandle (workspace : Workspace C P) (name : String) :
    Except Fault (Bool × Workspace C P) := do
  let before := workspace.handles.get? name
  let workspace ← workspace.exchange [] before.toList
  return (before.isSome, { workspace with handles := workspace.handles.erase name })

/-- Drop a match, and tell whether there was one. -/
def dropMatch (workspace : Workspace C P) (name : String) :
    Except Fault (Bool × Workspace C P) := do
  let before := workspace.results.get? name
  let workspace ← workspace.exchange [] (before.toList.flatMap heldByMatch)
  return (before.isSome, { workspace with results := workspace.results.erase name })

/-- Drop a search, and tell whether there was one. -/
def dropSearch (workspace : Workspace C P) (name : String) :
    Except Fault (Bool × Workspace C P) := do
  let before := workspace.searches.get? name
  let workspace ← workspace.exchange [] (before.toList.flatMap Search.holds)
  return (before.isSome, { workspace with searches := workspace.searches.erase name })

/-- Drop a pattern, and tell whether there was one.  Searches that share it keep it. -/
def dropPattern (workspace : Workspace C P) (name : String) : Bool × Workspace C P :=
  ((workspace.patterns.get? name).isSome,
    { workspace with patterns := workspace.patterns.erase name })

/-- Give a pattern an identity of its own. -/
def share (workspace : Workspace C P) (pattern : P) : Shared P × Workspace C P :=
  (⟨workspace.serial, pattern⟩, { workspace with serial := workspace.serial + 1 })

/-- Keep a pattern under a name. -/
def keepPattern (workspace : Workspace C P) (name : String) (pattern : P) : Workspace C P :=
  let (shared, workspace) := workspace.share pattern
  { workspace with patterns := workspace.patterns.insert name shared }

/-- Whether a search is one for a pattern of the given identity. -/
def searchesFor (serial : Nat) (search : Search P) : Bool :=
  match search.target with
  | some (_, .matching pattern _) => pattern.serial == serial
  | _ => false

/-- How many share the pattern kept under a name: the name itself and the searches for it. -/
def shareCount (workspace : Workspace C P) (name : String) : Except Fault Nat := do
  let shared ← register workspace.patterns name
  return 1 + (workspace.searches.values.filter (searchesFor shared.serial)).length

/-- Match the element of a handle against a pattern, with the given slots to begin with. -/
def test (workspace : Workspace C P) (pattern : P) (handle : Handle) (slots : Slots) :
    Except Fault (Except Fault Bool × Slots) := do
  let element ← workspace.read handle
  return examine (C := C) pattern element slots

end Workspace

end FormalLanguages
