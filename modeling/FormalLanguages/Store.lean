/-
# Stored values outlive their removal

A store keeps values in slots and counts the references to each of them.  A value passes through
three stages.  It is live until it is removed; after that it is a tombstone, still stored and
still readable, because something may refer to it; and once nothing does it may be reclaimed,
which empties its slot.  An emptied slot is used again, the one emptied last first, under a new
generation.

Reading through a key whose value has been reclaimed is a fault.  The function `cell` decides
it, and every other operation reads through `cell` before it changes anything.  A slot is numbered
with 32 bits, so a store may be full; only in a full store does a fault leave a trace, for an
insertion counts its value before it finds that there is no place for it.
-/

import FormalLanguages.Fault

namespace FormalLanguages

/-- A stored value, the number of references to it, and whether it has been removed. -/
structure Cell (α : Type) where
  content : α
  references : Nat := 0
  deleted : Bool := false
  deriving DecidableEq, Repr

/-- A place for one value.  The generation counts how often the slot was emptied; it wraps at 32
bits. -/
structure Slot (α : Type) where
  generation : UInt32 := 0
  cell : Option (Cell α) := none
  deriving DecidableEq, Repr

/-- Slots, the empty ones among them in the order in which they will be used again, and the
number of live values. -/
structure Store (α : Type) where
  slots : Array (Slot α) := #[]
  free : List Nat := []
  live : Nat := 0
  deriving DecidableEq, Repr

namespace Store

variable {α : Type}

/-- The store without slots. -/
def empty : Store α := {}

/-- What is stored at a key.  The key is stale if its slot is empty or has been emptied since. -/
def cell (store : Store α) (key : Key) : Except Fault (Cell α) :=
  match store.slots[key.index]? with
  | none => .error (.outOfBounds store.slots.size key.index)
  | some ⟨_, none⟩ => .error (.staleKey key)
  | some ⟨generation, some cell⟩ =>
      if generation = key.generation then .ok cell else .error (.staleKey key)

/-- Replace the cell of a key that is not stale. -/
def put (store : Store α) (key : Key) (cell : Cell α) : Store α :=
  { store with slots := store.slots.setIfInBounds key.index ⟨key.generation, some cell⟩ }

/-- Replacing one cell leaves what is stored at every other key. -/
theorem cell_put {store : Store α} {key : Key} {before : Cell α}
    (hstored : store.cell key = .ok before) (after : Cell α) (other : Key) :
    (store.put key after).cell other = if other = key then .ok after else store.cell other := by
  obtain ⟨index, generation⟩ := key
  obtain ⟨index', generation'⟩ := other
  simp only [cell, put] at hstored ⊢
  grind

/-- Store a value, live and without references, in the slot emptied last, or in a new one. -/
def place (store : Store α) (content : α) : Key × Store α :=
  match store.free with
  | [] =>
      (⟨store.slots.size, 0⟩,
        { store with slots := store.slots.push ⟨0, some { content }⟩, live := store.live + 1 })
  | index :: free =>
      let generation := (store.slots[index]?.map Slot.generation).getD 0
      (⟨index, generation⟩,
        { slots := store.slots.setIfInBounds index ⟨generation, some { content }⟩
          free
          live := store.live + 1 })

/-- Whether no slot is empty and all the numbers of 32 bits are taken by slots. -/
def isFull (store : Store α) : Bool :=
  store.free.isEmpty && decide (UInt32.size ≤ store.slots.size)

/-- Store a value, unless the store is full.  The value is counted before a place is looked for, so
a value for which there is none is counted all the same. -/
def insert (store : Store α) (content : α) : Except Fault Key × Store α :=
  if store.isFull then (.error .fullStore, { store with live := store.live + 1 })
  else
    let (key, store) := store.place content
    (.ok key, store)

/-- Read a value, live or removed. -/
def get (store : Store α) (key : Key) : Except Fault α :=
  return (← store.cell key).content

/-- Replace a value, keeping its stage and its references. -/
def set (store : Store α) (key : Key) (content : α) : Except Fault (Store α) := do
  let cell ← store.cell key
  return store.put key { cell with content }

/-- Take a reference. -/
def hold (store : Store α) (key : Key) : Except Fault (Store α) := do
  let cell ← store.cell key
  return store.put key { cell with references := cell.references + 1 }

/-- Give a reference back. -/
def release (store : Store α) (key : Key) : Except Fault (Store α) := do
  let cell ← store.cell key
  if cell.references = 0 then .error (.unheldRelease key)
  else return store.put key { cell with references := cell.references - 1 }

/-- The number of references to a value. -/
def references (store : Store α) (key : Key) : Except Fault Nat :=
  return (← store.cell key).references

/-- Whether a value has been removed. -/
def isDeleted (store : Store α) (key : Key) : Except Fault Bool :=
  return (← store.cell key).deleted

/-- Remove a value, leaving a tombstone, and tell whether it was live until now. -/
def tombstone (store : Store α) (key : Key) : Except Fault (Bool × Store α) := do
  let cell ← store.cell key
  if cell.deleted then return (false, store)
  else
    return (true, { store.put key { cell with deleted := true } with live := store.live - 1 })

/-- The keys of the removed values that nothing refers to, in the order of their slots. -/
def reclaimable (store : Store α) : List Key :=
  store.slots.toList.zipIdx.filterMap fun (slot, index) =>
    match slot.cell with
    | some cell =>
        if cell.deleted && cell.references == 0 then some ⟨index, slot.generation⟩ else none
    | none => none

/-- Empty the slot of a removed value that nothing refers to, and return the value. -/
def reclaim (store : Store α) (key : Key) : Except Fault (α × Store α) := do
  let cell ← store.cell key
  if cell.deleted = false then .error (.liveReclaim key)
  else if cell.references ≠ 0 then .error (.referencedReclaim key)
  else
    return (cell.content,
      { store with
        slots := store.slots.setIfInBounds key.index ⟨key.generation + 1, none⟩
        free := key.index :: store.free })

/-- Reclaim values in order, and return them. -/
def reclaimAll (store : Store α) : List Key → Except Fault (List α × Store α)
  | [] => return ([], store)
  | key :: rest => do
      let (content, store) ← store.reclaim key
      let (contents, store) ← store.reclaimAll rest
      return (content :: contents, store)

/-- Reclaim everything that may be reclaimed. -/
def sweep (store : Store α) : Except Fault (List α × Store α) :=
  store.reclaimAll store.reclaimable

end Store

end FormalLanguages
