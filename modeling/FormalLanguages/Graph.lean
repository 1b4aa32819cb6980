/-
# Elements are chained by group

A graph stores the elements of a container, productions or transitions, and threads them into
groups: the productions of one variable, the transitions that leave one state.  Each group keeps
the two ends of its chain, each element the key of its successor.  The groups are linked in turn,
in the order in which they were added, so walking every chain in the order of the groups meets
every stored element.  New elements are appended to their group's chain and numbered in the order
of their creation.

Removing an element leaves it in its chain as a tombstone, where walks step over it.  Only
`reclaim` takes elements out of their chains, and only those that are removed and not referred
to.

A walk follows links and therefore carries a bound on its length.  The bounds used here are the
number of slots for a walk over elements and the number of groups for a walk over groups; a chain
that meets no element twice never reaches them.
-/

import FormalLanguages.Index
import FormalLanguages.Store

namespace FormalLanguages

/-- An element in its chain. -/
structure Node (α : Type) where
  /-- The number of the element, which no other element ever has. -/
  id : Nat
  group : Nat
  next : Option Key
  data : α
  deriving DecidableEq, Repr

/-- The two ends of a group's chain, and the group that follows. -/
structure Group where
  first : Option Key := none
  last : Option Key := none
  next : Option Nat := none
  deriving DecidableEq, Repr

/-- Stored elements, the groups they are chained in, and the number of the next element. -/
structure Graph (α : Type) where
  store : Store (Node α) := .empty
  groups : Array Group := #[]
  lastGroup : Option Nat := none
  nextId : Index
  deriving DecidableEq, Repr

/-- What can be read of an element. -/
structure Element (α : Type) where
  id : Nat
  group : Nat
  data : α
  deleted : Bool
  deriving DecidableEq, Repr

namespace Graph

variable {α : Type}

/-- The graph without groups, whose elements will be numbered as the given kind. -/
def empty (kind : IndexKind) : Graph α := { nextId := .first kind 32 }

/-- How many live elements there are. -/
def size (graph : Graph α) : Nat := graph.store.live

/-- The group with a number. -/
def group (graph : Graph α) (number : Nat) : Except Fault Group :=
  match graph.groups[number]? with
  | some group => .ok group
  | none => .error (.missingGroup number)

/-- Replace the group with a number. -/
def setGroup (graph : Graph α) (number : Nat) (group : Group) : Graph α :=
  { graph with groups := graph.groups.setIfInBounds number group }

/-- Let a group follow another one, if there is another one. -/
def linkGroup (graph : Graph α) (before : Option Nat) (number : Nat) :
    Except Fault (Graph α) := do
  match before with
  | none => return graph
  | some last =>
      let group ← graph.group last
      return graph.setGroup last { group with next := some number }

/-- Add a group without elements and link it behind the last one. -/
def addGroup (graph : Graph α) : Except Fault (Nat × Graph α) := do
  let number := graph.groups.size
  let graph ← graph.linkGroup graph.lastGroup number
  return (number, { graph with groups := graph.groups.push {}, lastGroup := some number })

/-- What can be read of the element at a key, live or removed. -/
def element (graph : Graph α) (key : Key) : Except Fault (Element α) := do
  let cell ← graph.store.cell key
  let node := cell.content
  return { id := node.id, group := node.group, data := node.data, deleted := cell.deleted }

/-- Say what follows in the chain of a group: behind an element, or at its beginning. -/
def setSuccessor (graph : Graph α) (number : Nat) (before next : Option Key) :
    Except Fault (Graph α) := do
  match before with
  | none =>
      let group ← graph.group number
      return graph.setGroup number { group with first := next }
  | some key =>
      let node ← graph.store.get key
      return { graph with store := ← graph.store.set key { node with next } }

/-- Say which element of a group is the last one. -/
def setLast (graph : Graph α) (number : Nat) (last : Option Key) : Except Fault (Graph α) := do
  let group ← graph.group number
  return graph.setGroup number { group with last }

/-- Store a new element and link it behind the last one of its group. -/
def append (graph : Graph α) (number : Nat) (data : α) : Except Fault (Key × Graph α) := do
  let group ← graph.group number
  let nextId ← graph.nextId.succ
  let (inserted, store) :=
    graph.store.insert { id := graph.nextId.value, group := number, next := none, data }
  let key ← inserted
  let graph ← { graph with store, nextId }.setSuccessor number group.last (some key)
  return (key, ← graph.setLast number (some key))

/-- The keys met by following links from a cursor, which may be at the end of a chain. -/
def walk (graph : Graph α) : (bound : Nat) → (cursor : Option Key) → Except Fault (List Key)
  | _, none => return []
  | 0, some _ => .error .endlessWalk
  | bound + 1, some key => do
      let node ← graph.store.get key
      return key :: (← graph.walk bound node.next)

/-- The keys of a group's elements, tombstones included, in the order of the chain. -/
def chain (graph : Graph α) (number : Nat) : Except Fault (List Key) := do
  let group ← graph.group number
  graph.walk graph.store.slots.size group.first

/-- The first element of a group; a group that was never added has none. -/
def head? (graph : Graph α) (number : Nat) : Option Key :=
  graph.groups[number]?.bind Group.first

/-- The first element of the first group that has any, from the given group on. -/
def headFrom (graph : Graph α) :
    (bound : Nat) → (number : Option Nat) → Except Fault (Option Key)
  | _, none => return none
  | 0, some _ => .error .endlessWalk
  | bound + 1, some number => do
      let group ← graph.group number
      match group.first with
      | some key => return some key
      | none => graph.headFrom bound group.next

/-- The first element of all, which may be a tombstone. -/
def firstElement (graph : Graph α) : Except Fault (Option Key) :=
  graph.headFrom graph.groups.size (if graph.groups.isEmpty then none else some 0)

/-- The element that follows a given one, which may be a tombstone: in its chain, and unless the
walk is confined to one group, in the groups behind it. -/
def findNext (graph : Graph α) (key : Key) (confined : Bool) : Except Fault (Option Key) := do
  let node ← graph.store.get key
  match node.next with
  | some next => return some next
  | none =>
      if confined then return none
      else graph.headFrom graph.groups.size (← graph.group node.group).next

/-- Step over tombstones: the first live element from a cursor on. -/
def nextLiveWithin (graph : Graph α) (confined : Bool) :
    (bound : Nat) → (cursor : Option Key) → Except Fault (Option Key)
  | _, none => return none
  | 0, some _ => .error .endlessWalk
  | bound + 1, some key => do
      if ← graph.store.isDeleted key then
        graph.nextLiveWithin confined bound (← graph.findNext key confined)
      else return some key

/-- The first live element from a cursor on. -/
def nextLive (graph : Graph α) (confined : Bool) (cursor : Option Key) :
    Except Fault (Option Key) :=
  graph.nextLiveWithin confined graph.store.slots.size cursor

/-- Where a scan has stopped: at an element that is accepted, or at one for which this ends in a
fault, with what follows it. -/
structure Stop (σ : Type) where
  key : Key
  next : Option Key
  outcome : Except Fault σ

/-- Go through the elements from a given one on until one is live and accepted.  Accepting writes to
work that all the elements share; after an element that is not accepted the work is reset. -/
def scanWithin {σ : Type} (graph : Graph α) (confined : Bool)
    (accept : Element α → σ → Except Fault Bool × σ) (reset : σ → σ) :
    (bound : Nat) → (key : Key) → (work : σ) → Except Fault (Option (Stop σ))
  | 0, _, _ => .error .endlessWalk
  | bound + 1, key, work => do
      let next ← graph.findNext key confined
      let element ← graph.element key
      let (accepted, work) := if element.deleted then (.ok false, work) else accept element work
      match accepted, next with
      | .error fault, _ => return some ⟨key, next, .error fault⟩
      | .ok true, _ => return some ⟨key, next, .ok work⟩
      | .ok false, some next => graph.scanWithin confined accept reset bound next (reset work)
      | .ok false, none => return none

/-- The first element from a cursor on that is live and accepted: tombstones are stepped over, and
the elements from there on are gone through with new work. -/
def seek {σ : Type} (graph : Graph α) (confined : Bool)
    (accept : Element α → σ → Except Fault Bool × σ) (reset : σ → σ) (work : σ)
    (cursor : Option Key) : Except Fault (Option (Stop σ)) := do
  match ← graph.nextLive confined cursor with
  | none => return none
  | some key => graph.scanWithin confined accept reset graph.store.slots.size key work

/-- Whether a group has a live element. -/
def hasLive (graph : Graph α) (number : Nat) : Except Fault Bool := do
  match graph.groups[number]? with
  | none => return false
  | some _ =>
      let keys ← graph.chain number
      let deleted ← keys.mapM graph.store.isDeleted
      return deleted.any (!·)

/-- Remove an element, and tell whether it was live until now. -/
def remove (graph : Graph α) (key : Key) : Except Fault (Bool × Graph α) := do
  let (removed, store) ← graph.store.tombstone key
  return (removed, { graph with store })

/-- Remove the elements from a cursor on, to the end of their chain, and count those that were live
until then. -/
def removeFrom (graph : Graph α) :
    (bound : Nat) → (cursor : Option Key) → Except Fault (Nat × Graph α)
  | _, none => return (0, graph)
  | 0, some _ => .error .endlessWalk
  | bound + 1, some key => do
      let (removed, graph) ← graph.remove key
      let node ← graph.store.get key
      let (count, graph) ← graph.removeFrom bound node.next
      return (if removed then count + 1 else count, graph)

/-- Remove every element of a group. -/
def removeGroup (graph : Graph α) (number : Nat) : Except Fault (Nat × Graph α) := do
  let group ← graph.group number
  graph.removeFrom graph.store.slots.size group.first

/-- Take an element out of its chain: what followed it then follows its predecessor, and the
predecessor is the last element if it was. -/
def unlink (graph : Graph α) (key : Key) : Except Fault (Graph α) := do
  let node ← graph.store.get key
  let keys ← graph.chain node.group
  let group ← graph.group node.group
  let before := (keys.takeWhile (· ≠ key)).getLast?
  let graph ← graph.setSuccessor node.group before node.next
  if group.last = some key then graph.setLast node.group before
  else return graph

/-- Free elements in order: each is taken out of its chain, then out of an index that files it, and
then out of its slot. -/
def freeFiled {ι : Type} (unfile : ι → Key → Node α → ι) (graph : Graph α) (index : ι) :
    List Key → Except Fault (Graph α × ι)
  | [] => return (graph, index)
  | key :: rest => do
      let node ← graph.store.get key
      let graph ← graph.unlink key
      let index := unfile index key node
      let (_, store) ← graph.store.reclaim key
      freeFiled unfile { graph with store } index rest

/-- Free every removed element that nothing refers to, and count them. -/
def reclaimFiled {ι : Type} (unfile : ι → Key → Node α → ι) (graph : Graph α) (index : ι) :
    Except Fault (Nat × Graph α × ι) := do
  let keys := graph.store.reclaimable
  let (graph, index) ← freeFiled unfile graph index keys
  return (keys.length, graph, index)

end Graph

end FormalLanguages
