/-
# Walks do not see reference counts

Every walk over a graph follows links and reads what is stored, and none of them asks how often an
element is referred to.  The uncounted graph is the graph with all these numbers forgotten; whatever
is read of it is what is read of the graph itself.  So two graphs that differ in their reference
counts only cannot be told apart by walking over them.
-/

import FormalLanguages.Proofs.Graph

namespace FormalLanguages

variable {α β : Type}

/-- The cell with the number of references forgotten. -/
def Cell.uncounted (cell : Cell α) : Cell α := { cell with references := 0 }

/-- The slot with the number of references to what it holds forgotten. -/
def Slot.uncounted (slot : Slot α) : Slot α := { slot with cell := slot.cell.map Cell.uncounted }

namespace Store

variable {store : Store α} {key : Key} {cell : Cell α}

/-- The store with all reference counts forgotten. -/
def uncounted (store : Store α) : Store α := { store with slots := store.slots.map Slot.uncounted }

@[simp]
theorem size_uncounted (store : Store α) : store.uncounted.slots.size = store.slots.size :=
  Array.size_map

theorem cell_uncounted (store : Store α) (key : Key) :
    store.uncounted.cell key = (store.cell key).map Cell.uncounted := by
  simp only [cell, size_uncounted]
  simp only [uncounted, Array.getElem?_map]
  cases store.slots[key.index]? with
  | none => rfl
  | some slot =>
      obtain ⟨generation, content⟩ := slot
      cases content with
      | none => rfl
      | some cell =>
          simp only [Option.map_some, Slot.uncounted]
          split <;> rfl

@[simp]
theorem get_uncounted (store : Store α) (key : Key) : store.uncounted.get key = store.get key := by
  simp only [get, cell_uncounted]
  cases store.cell key <;> rfl

@[simp]
theorem isDeleted_uncounted (store : Store α) (key : Key) :
    store.uncounted.isDeleted key = store.isDeleted key := by
  simp only [isDeleted, cell_uncounted]
  cases store.cell key <;> rfl

/-- Counting the references to a value anew changes nothing else. -/
theorem uncounted_put (hcell : store.cell? key = some cell) (references : Nat) :
    (store.put key { cell with references }).uncounted = store.uncounted := by
  have hslot := cell?_eq_some_iff.mp hcell
  simp only [uncounted, put, Store.mk.injEq, and_true]
  apply Array.ext_getElem?
  intro place
  rw [Array.getElem?_map, Array.getElem?_map, Array.getElem?_setIfInBounds]
  split
  · next hplace =>
      subst hplace
      rw [hslot, if_pos (Array.getElem?_eq_some_iff.mp hslot).1]
      rfl
  · rfl

theorem put_uncounted (store : Store α) (key : Key) (cell : Cell α) :
    store.uncounted.put key cell.uncounted = (store.put key cell).uncounted := by
  simp only [uncounted, put, Array.map_setIfInBounds]
  rfl

theorem tombstone_uncounted (store : Store α) (key : Key) :
    store.uncounted.tombstone key = Prod.map id uncounted <$> store.tombstone key := by
  cases hcell : store.cell key with
  | error fault => simp only [tombstone, cell_uncounted, hcell]; rfl
  | ok cell =>
      have hstored := cell_eq_ok_iff.mp hcell
      have huncounted : store.uncounted.cell? key = some cell.uncounted := by
        rw [← cell_eq_ok_iff, cell_uncounted, hcell]
        rfl
      have hbury : store.uncounted.bury key cell.uncounted = (store.bury key cell).uncounted := by
        have hput := put_uncounted store key { cell with deleted := true }
        exact congrArg (fun put : Store α => { put with live := store.live - 1 }) hput
      have hdeleted : cell.uncounted.deleted = cell.deleted := rfl
      rw [tombstone_eq hstored, tombstone_eq huncounted, hdeleted, hbury]
      cases cell.deleted <;> rfl

/-- Stores that differ in their reference counts at most are the same if these are. -/
theorem eq_of_uncounted {other : Store α} (huncounted : other.uncounted = store.uncounted)
    (hreferences : ∀ key cell now, store.cell? key = some cell → other.cell? key = some now →
      now.references = cell.references) : other = store := by
  obtain ⟨slots, free, live⟩ := store
  obtain ⟨slots', free', live'⟩ := other
  simp only [uncounted, Store.mk.injEq] at huncounted
  obtain ⟨hslots, rfl, rfl⟩ := huncounted
  suffices hsame : slots' = slots by rw [hsame]
  apply Array.ext_getElem?
  intro place
  have hplace := congrArg (·[place]?) hslots
  simp only [Array.getElem?_map] at hplace
  cases hslot : slots[place]? with
  | none => simpa [hslot] using hplace
  | some slot =>
      obtain ⟨slot', hslot', heq⟩ : ∃ slot', slots'[place]? = some slot' ∧
          slot'.uncounted = slot.uncounted := by simpa [hslot] using hplace
      obtain ⟨generation, content⟩ := slot
      obtain ⟨generation', content'⟩ := slot'
      simp only [Slot.uncounted, Slot.mk.injEq] at heq
      obtain ⟨rfl, hcontent⟩ := heq
      rw [hslot', Option.some.injEq, Slot.mk.injEq]
      refine ⟨rfl, ?_⟩
      cases content with
      | none => simpa using hcontent
      | some cell =>
          obtain ⟨cell', rfl, hcell⟩ : ∃ cell', content' = some cell' ∧
              cell'.uncounted = cell.uncounted := by simpa using hcontent
          have hcount := hreferences ⟨place, generation'⟩ cell cell'
            (cell?_eq_some_iff.mpr hslot) (cell?_eq_some_iff.mpr hslot')
          obtain ⟨value, references, deleted⟩ := cell
          obtain ⟨value', references', deleted'⟩ := cell'
          simp_all [Cell.uncounted]

end Store

namespace Graph

variable (graph : Graph α)

/-- The graph with all reference counts forgotten. -/
def uncounted : Graph α := { graph with store := graph.store.uncounted }

@[simp]
theorem uncounted_groups : graph.uncounted.groups = graph.groups := rfl

@[simp]
theorem uncounted_group (number : Nat) : graph.uncounted.group number = graph.group number := rfl

@[simp]
theorem uncounted_get (key : Key) : graph.uncounted.store.get key = graph.store.get key :=
  graph.store.get_uncounted key

@[simp]
theorem uncounted_size : graph.uncounted.store.slots.size = graph.store.slots.size :=
  graph.store.size_uncounted

/-- Counting the references to an element anew changes nothing else. -/
theorem uncounted_recounted {key : Key} {cell : Cell (Node α)}
    (hcell : graph.store.cell? key = some cell) (references : Nat) :
    Graph.uncounted { graph with store := graph.store.put key { cell with references } } =
      graph.uncounted := by
  simp only [uncounted, Store.uncounted_put hcell]

@[simp]
theorem uncounted_element (key : Key) : graph.uncounted.element key = graph.element key := by
  simp only [element, uncounted, Store.cell_uncounted]
  cases graph.store.cell key <;> rfl

theorem remove_uncounted (key : Key) :
    graph.uncounted.remove key = Prod.map id uncounted <$> graph.remove key := by
  simp only [remove, uncounted, Store.tombstone_uncounted]
  cases graph.store.tombstone key <;> rfl

/-- Removing elements has the same outcome however often they are referred to. -/
theorem removeAll_uncounted (keys : List Key) :
    graph.uncounted.removeAll keys = Prod.map id uncounted <$> graph.removeAll keys := by
  induction keys generalizing graph with
  | nil => rfl
  | cons key rest ih =>
      simp only [removeAll, remove_uncounted]
      cases graph.remove key with
      | error fault => rfl
      | ok result =>
          obtain ⟨removed, after⟩ := result
          show after.uncounted.removeAll rest >>= _ = _ <$> (after.removeAll rest >>= _)
          rw [ih]
          cases after.removeAll rest <;> rfl

variable {graph} in
theorem removeAll_congr {other after : Graph α} {keys : List Key} {count : Nat}
    (huncounted : other.uncounted = graph.uncounted)
    (hremove : graph.removeAll keys = .ok (count, after)) :
    ∃ now, other.removeAll keys = .ok (count, now) ∧ now.uncounted = after.uncounted := by
  have hother := removeAll_uncounted other keys
  rw [huncounted, removeAll_uncounted, hremove] at hother
  cases hnow : other.removeAll keys with
  | error fault =>
      rw [hnow] at hother
      cases hother
  | ok result =>
      obtain ⟨count', now⟩ := result
      rw [hnow] at hother
      have hsame := Prod.mk.inj (Except.ok.inj hother)
      exact ⟨now, by rw [← show count = count' from hsame.1], hsame.2.symm⟩

variable {graph} in
/-- Graphs that differ in their reference counts at most are the same if these are. -/
theorem eq_of_uncounted {other : Graph α} (huncounted : other.uncounted = graph.uncounted)
    (hreferences : ∀ key cell now, graph.store.cell? key = some cell →
      other.store.cell? key = some now → now.references = cell.references) : other = graph := by
  obtain ⟨store, groups, lastGroup, nextId⟩ := graph
  obtain ⟨store', groups', lastGroup', nextId'⟩ := other
  simp only [uncounted, Graph.mk.injEq] at huncounted
  obtain ⟨hstore, rfl, rfl, rfl⟩ := huncounted
  rw [Store.eq_of_uncounted hstore hreferences]

@[simp]
theorem uncounted_walk (bound : Nat) (cursor : Option Key) :
    graph.uncounted.walk bound cursor = graph.walk bound cursor := by
  induction bound generalizing cursor with
  | zero => cases cursor <;> rfl
  | succ bound ih =>
      cases cursor with
      | none => rfl
      | some key => simp only [walk, uncounted_get, ih]

@[simp]
theorem uncounted_chain (number : Nat) : graph.uncounted.chain number = graph.chain number := by
  simp only [chain, uncounted_group, uncounted_size, uncounted_walk]

@[simp]
theorem uncounted_headFrom (bound : Nat) (number : Option Nat) :
    graph.uncounted.headFrom bound number = graph.headFrom bound number := by
  induction bound generalizing number with
  | zero => cases number <;> rfl
  | succ bound ih =>
      cases number with
      | none => rfl
      | some number => simp only [headFrom, uncounted_group, ih]

@[simp]
theorem uncounted_firstElement : graph.uncounted.firstElement = graph.firstElement :=
  graph.uncounted_headFrom _ _

@[simp]
theorem uncounted_findNext (key : Key) (confined : Bool) :
    graph.uncounted.findNext key confined = graph.findNext key confined := by
  simp only [findNext, uncounted_get, uncounted_groups, uncounted_group, uncounted_headFrom]

@[simp]
theorem uncounted_isDeleted (key : Key) :
    graph.uncounted.store.isDeleted key = graph.store.isDeleted key :=
  graph.store.isDeleted_uncounted key

@[simp]
theorem uncounted_nextLive (confined : Bool) (cursor : Option Key) :
    graph.uncounted.nextLive confined cursor = graph.nextLive confined cursor := by
  simp only [nextLive, uncounted_size]
  generalize graph.store.slots.size = bound
  induction bound generalizing cursor with
  | zero => cases cursor <;> rfl
  | succ bound ih =>
      cases cursor with
      | none => rfl
      | some key => simp only [nextLiveWithin, uncounted_isDeleted, uncounted_findNext, ih]

@[simp]
theorem uncounted_scanWithin (confined : Bool) (accept : Element α → β → Except Fault Bool × β)
    (reset : β → β) (bound : Nat) (key : Key) (work : β) :
    graph.uncounted.scanWithin confined accept reset bound key work =
      graph.scanWithin confined accept reset bound key work := by
  induction bound generalizing key work with
  | zero => rfl
  | succ bound ih => simp only [scanWithin, uncounted_findNext, uncounted_element, ih]

@[simp]
theorem uncounted_seek (confined : Bool) (accept : Element α → β → Except Fault Bool × β)
    (reset : β → β) (work : β) (cursor : Option Key) :
    graph.uncounted.seek confined accept reset work cursor =
      graph.seek confined accept reset work cursor := by
  simp only [seek, uncounted_nextLive, uncounted_size, uncounted_scanWithin]

@[simp]
theorem uncounted_hasLive (number : Nat) :
    graph.uncounted.hasLive number = graph.hasLive number := by
  have hdeleted : graph.uncounted.store.isDeleted = graph.store.isDeleted :=
    funext graph.uncounted_isDeleted
  simp only [hasLive, uncounted_groups, uncounted_chain, hdeleted]

end Graph

end FormalLanguages
