/-
# Every change of a graph restores its chains

A graph is sound if its store is tidy, every group has its chain, no element belongs to a group that
was never added, elements are told apart by their numbers, there are no more slots than numbers that
have been given, and the groups follow each other in the order of their addition.  Soundness is what
walks rely on, and this module shows that the changes of a graph keep it: adding a group, appending
an element, removing elements and taking references, and taking a removed element out of its chain
and its slot.

Appending and taking out both lead a part of a chain elsewhere: the chain of a group up to its end,
or up to the element that goes.  `Redirected` says what that step does to the graph, and both are
derived from it.
-/

import FormalLanguages.Proofs.Chain

namespace FormalLanguages.Graph

variable {α : Type} {graph after : Graph α} {number : Nat} {keys : List Key} {key : Key}

/-- The links from group to group. -/
def outline (graph : Graph α) : List (Option Nat) := graph.groups.toList.map Group.next

/-- The links of groups that follow each other in the order of their numbers. -/
def outlineOf (size : Nat) : List (Option Nat) :=
  (List.range size).map fun number => if number + 1 < size then some (number + 1) else none

/-- A graph whose store, chains and groups fit together. -/
structure Sound (graph : Graph α) : Prop where
  tidy : graph.store.Tidy
  chained : ∀ number, number < graph.groups.size → ∃ keys, graph.Chain number keys
  grouped : ∀ key place, graph.place? key = some place → place.group < graph.groups.size
  numbered : ∀ key place, graph.place? key = some place → place.id < graph.nextId.value
  distinct : ∀ key other place place', graph.place? key = some place →
    graph.place? other = some place' → place.id = place'.id → key = other
  slots_le : graph.store.slots.size ≤ graph.nextId.value
  width_eq : graph.nextId.width = 32
  outline_eq : graph.outline = outlineOf graph.groups.size
  lastGroup_eq : graph.lastGroup = if graph.groups.size = 0 then none
    else some (graph.groups.size - 1)

theorem group_eq (hnumber : number < graph.groups.size) :
    graph.group number = .ok graph.groups[number] := by
  simp [group, hnumber]

@[simp]
theorem length_outline (graph : Graph α) : graph.outline.length = graph.groups.size := by
  simp [outline]

section SetGroup

variable {group : Group}

@[simp]
theorem size_setGroup (graph : Graph α) (number : Nat) (group : Group) :
    (graph.setGroup number group).groups.size = graph.groups.size := by
  simp [setGroup]

theorem head?_setGroup (hnumber : number < graph.groups.size) (group : Group) (other : Nat) :
    (graph.setGroup number group).head? other =
      if other = number then group.first else graph.head? other := by
  by_cases hother : number = other
  · subst hother
    simp [head?, setGroup, hnumber]
  · have hne : other ≠ number := fun heq => hother heq.symm
    simp [head?, setGroup, hother, hne]

theorem last?_setGroup (hnumber : number < graph.groups.size) (group : Group) (other : Nat) :
    (graph.setGroup number group).last? other =
      if other = number then group.last else graph.last? other := by
  by_cases hother : number = other
  · subst hother
    simp [last?, setGroup, hnumber]
  · have hne : other ≠ number := fun heq => hother heq.symm
    simp [last?, setGroup, hother, hne]

theorem outline_setGroup (graph : Graph α) (number : Nat) (group : Group) :
    (graph.setGroup number group).outline = graph.outline.set number group.next := by
  simp [outline, setGroup, List.map_set]

theorem outline_setGroup_of_next_eq (hnumber : number < graph.groups.size)
    (hnext : group.next = graph.groups[number].next) :
    (graph.setGroup number group).outline = graph.outline := by
  rw [outline_setGroup, hnext]
  apply List.ext_getElem? 
  intro place
  by_cases hplace : number = place
  · subst hplace
    simp [outline, hnumber]
  · simp [hplace]

end SetGroup

namespace Chain

variable (hchain : graph.Chain number keys)

include hchain

theorem nodup : keys.Nodup := by
  apply hchain.increasing.imp
  intro first second hlt heq
  subst heq
  exact Place.lt_irrefl _ hlt

theorem stored_of_mem (hmem : key ∈ keys) : ∃ cell, graph.store.cell? key = some cell := by
  obtain ⟨node, hnode⟩ := hchain.links.stored_of_mem hmem
  obtain ⟨cell, hcell, _⟩ := node?_eq_some_iff.mp hnode
  exact ⟨cell, hcell⟩

/-- The chain of a group is what a walk from its first element meets. -/
theorem chain_eq (hnumber : number < graph.groups.size) : graph.chain number = .ok keys := by
  have hlength : keys.length ≤ graph.store.slots.size :=
    Store.length_le_of_stored hchain.nodup fun key => hchain.stored_of_mem
  have hlinks := hchain.links
  simp only [head?, Array.getElem?_eq_getElem hnumber, Option.bind_some] at hlinks
  simp [chain, group_eq hnumber, hlinks.walk_eq hlength]

theorem head?_eq : graph.head? number = keys.head? := hchain.links.start_eq_head?

/-- A group has one chain. -/
theorem unique {others : List Key} (hothers : graph.Chain number others) : keys = others :=
  hchain.links.unique hothers.links

/-- The order of a list of keys depends only on the places of their elements. -/
theorem increasing_congr (hsame : ∀ key ∈ keys, after.place? key = graph.place? key) :
    keys.Pairwise fun first second => after.placeAt first < after.placeAt second := by
  apply hchain.increasing.imp_of_mem
  intro first second hfirst hsecond hlt
  simpa [placeAt, hsame _ hfirst, hsame _ hsecond] using hlt

/-- A chain depends only on the elements of its group and on the ends that the group keeps. -/
theorem congr (hhead : after.head? number = graph.head? number)
    (hlast : after.last? number = graph.last? number)
    (hnode : ∀ key ∈ keys, after.node? key = graph.node? key)
    (hplace : ∀ key id,
      after.place? key = some ⟨number, id⟩ ↔ graph.place? key = some ⟨number, id⟩) :
    after.Chain number keys where
  links := hhead ▸ hchain.links.congr hnode
  last_eq := hlast.trans hchain.last_eq
  mem_iff key := by simp [hchain.mem_iff key, hplace]
  increasing := hchain.increasing_congr fun key hkey => by
    obtain ⟨id, hid⟩ := (hchain.mem_iff key).mp hkey
    rw [hid]
    exact (hplace key id).mpr hid

end Chain

/-- Every stored element stands somewhere in the chain of its group. -/
theorem Sound.exists_chain (hsound : graph.Sound) {place : Place}
    (hplace : graph.place? key = some place) :
    ∃ pre post, graph.Chain place.group (pre ++ key :: post) := by
  obtain ⟨keys, hchain⟩ := hsound.chained place.group (hsound.grouped key place hplace)
  obtain ⟨pre, post, rfl⟩ :=
    List.append_of_mem ((hchain.mem_iff key).mpr ⟨place.id, hplace⟩)
  exact ⟨pre, post, hchain⟩

/-- A graph in which a part of a group's chain leads elsewhere: `next` follows the element
`before`, or is the first element of the group. -/
structure Redirected (graph after : Graph α) (number : Nat) (before next : Option Key) : Prop where
  cell?_eq : ∀ key, after.store.cell? key =
    if before = some key then (graph.store.cell? key).map (·.follow next)
    else graph.store.cell? key
  head?_eq : ∀ other, after.head? other =
    if before = none ∧ other = number then next else graph.head? other
  last?_eq : ∀ other, after.last? other = graph.last? other
  outline_eq : after.outline = graph.outline
  lastGroup_eq : after.lastGroup = graph.lastGroup
  nextId_eq : after.nextId = graph.nextId
  slots_eq : after.store.slots.size = graph.store.slots.size
  tidy : graph.store.Tidy → after.store.Tidy

theorem setSuccessor_spec (hnumber : number < graph.groups.size) {before : Option Key}
    (hbefore : ∀ key, before = some key → ∃ cell, graph.store.cell? key = some cell)
    (next : Option Key) :
    ∃ after, graph.setSuccessor number before next = .ok after ∧
      graph.Redirected after number before next := by
  cases before with
  | none =>
      refine ⟨graph.setGroup number { graph.groups[number] with first := next },
        by simp [setSuccessor, group_eq hnumber], ?_⟩
      refine ⟨fun key => by simp [setGroup], ?_, ?_,
        outline_setGroup_of_next_eq hnumber rfl, rfl, rfl, rfl, id⟩
      · intro other
        simp [head?_setGroup hnumber]
      · intro other
        rw [last?_setGroup hnumber]
        split
        · next heq => simp [heq, last?, hnumber]
        · rfl
  | some key =>
      obtain ⟨cell, hcell⟩ := hbefore key rfl
      have hset := Store.set_eq hcell { cell.content with next }
      refine ⟨{ graph with store := graph.store.put key (cell.follow next) }, ?_, ?_⟩
      · simp [setSuccessor, Store.get_eq hcell, hset, Cell.follow]
      · refine ⟨fun other => ?_, fun other => by simp [head?], fun other => rfl, rfl, rfl, rfl,
          Store.size_put _ _ _, fun htidy => htidy.put hcell rfl⟩
        rw [Store.cell?_put hcell]
        by_cases hother : other = key
        · simp [hother, hcell]
        · have hne : key ≠ other := fun heq => hother heq.symm
          simp [hother, hne]

/-- A graph in which a group keeps another last element. -/
structure Ended (graph after : Graph α) (number : Nat) (last : Option Key) : Prop where
  store_eq : after.store = graph.store
  head?_eq : ∀ other, after.head? other = graph.head? other
  last?_eq : ∀ other, after.last? other = if other = number then last else graph.last? other
  outline_eq : after.outline = graph.outline
  lastGroup_eq : after.lastGroup = graph.lastGroup
  nextId_eq : after.nextId = graph.nextId

theorem setLast_spec (hnumber : number < graph.groups.size) (last : Option Key) :
    ∃ after, graph.setLast number last = .ok after ∧ graph.Ended after number last := by
  refine ⟨graph.setGroup number { graph.groups[number] with last },
    by simp [setLast, group_eq hnumber], rfl, ?_, ?_,
    outline_setGroup_of_next_eq hnumber rfl, rfl, rfl⟩
  · intro other
    rw [head?_setGroup hnumber]
    split
    · next heq => simp [heq, head?, hnumber]
    · rfl
  · intro other
    rw [last?_setGroup hnumber]

section Relabeling

/-- Two graphs that agree in their elements, links and groups, and in how many slots they have.
They may differ in which elements are removed and in how many references there are to each. -/
structure Relabeled (graph after : Graph α) : Prop where
  node?_eq : ∀ key, after.node? key = graph.node? key
  groups_eq : after.groups = graph.groups
  lastGroup_eq : after.lastGroup = graph.lastGroup
  nextId_eq : after.nextId = graph.nextId
  slots_eq : after.store.slots.size = graph.store.slots.size

theorem place?_eq_map_node? (graph : Graph α) (key : Key) :
    graph.place? key = (graph.node? key).map Node.place := by
  simp only [place?, stored?, node?, Option.map_map]
  rfl

namespace Relabeled

theorem refl (graph : Graph α) : graph.Relabeled graph := ⟨fun _ => rfl, rfl, rfl, rfl, rfl⟩

theorem trans {middle : Graph α} (hfirst : graph.Relabeled middle)
    (hsecond : middle.Relabeled after) : graph.Relabeled after where
  node?_eq key := (hsecond.node?_eq key).trans (hfirst.node?_eq key)
  groups_eq := hsecond.groups_eq.trans hfirst.groups_eq
  lastGroup_eq := hsecond.lastGroup_eq.trans hfirst.lastGroup_eq
  nextId_eq := hsecond.nextId_eq.trans hfirst.nextId_eq
  slots_eq := hsecond.slots_eq.trans hfirst.slots_eq

variable (hrelabeled : graph.Relabeled after)

include hrelabeled

theorem size_eq : after.groups.size = graph.groups.size :=
  congrArg Array.size hrelabeled.groups_eq

theorem place?_eq (key : Key) : after.place? key = graph.place? key := by
  rw [place?_eq_map_node?, place?_eq_map_node?, hrelabeled.node?_eq]

theorem chain (hchain : graph.Chain number keys) : after.Chain number keys := by
  refine hchain.congr ?_ ?_ (fun key _ => hrelabeled.node?_eq key) fun key id => ?_
  · rw [head?, head?, hrelabeled.groups_eq]
  · rw [last?, last?, hrelabeled.groups_eq]
  · rw [hrelabeled.place?_eq]

theorem sound (hsound : graph.Sound) (htidy : after.store.Tidy) : after.Sound := by
  have hgroups := hrelabeled.groups_eq
  have hplace := hrelabeled.place?_eq
  refine ⟨htidy, ?_, ?_, ?_, ?_, ?_, ?_, ?_, ?_⟩
  · intro number hnumber
    obtain ⟨keys, hchain⟩ := hsound.chained number (hgroups ▸ hnumber)
    exact ⟨keys, hrelabeled.chain hchain⟩
  · intro key place hkey
    exact hgroups ▸ hsound.grouped key place (hplace key ▸ hkey)
  · intro key place hkey
    exact hrelabeled.nextId_eq ▸ hsound.numbered key place (hplace key ▸ hkey)
  · intro first second place place' hfirst hsecond hsame
    exact hsound.distinct first second place place' (hplace first ▸ hfirst)
      (hplace second ▸ hsecond) hsame
  · rw [hrelabeled.slots_eq, hrelabeled.nextId_eq]
    exact hsound.slots_le
  · rw [hrelabeled.nextId_eq, hsound.width_eq]
  · rw [outline, hgroups]
    exact hsound.outline_eq
  · rw [hrelabeled.lastGroup_eq, hgroups, hsound.lastGroup_eq]

end Relabeled

section Label

variable {cell label : Cell (Node α)} {store : Store (Node α)}
  (hstore : ∀ other, store.cell? other = if other = key then some label
    else graph.store.cell? other)

include hstore

/-- Changing the label of one cell relabels the graph. -/
theorem relabeled_of_cell? (hcell : graph.store.cell? key = some cell)
    (hcontent : label.content = cell.content)
    (hslots : store.slots.size = graph.store.slots.size) :
    graph.Relabeled { graph with store } where
  node?_eq other := by
    simp only [node?, hstore]
    split
    · next heq => simp [heq, hcell, hcontent]
    · rfl
  groups_eq := rfl
  lastGroup_eq := rfl
  nextId_eq := rfl
  slots_eq := hslots

theorem stored?_of_cell? (other : Key) :
    { graph with store }.stored? other =
      if other = key then some label.entry else graph.stored? other := by
  simp only [stored?, hstore]
  split <;> rfl

end Label

/-- Removing an element that is stored turns its entry into that of a tombstone. -/
theorem remove_spec {entry : Entry α} (hsound : graph.Sound)
    (hentry : graph.stored? key = some entry) :
    ∃ after, graph.remove key = .ok (!entry.deleted, after) ∧ after.Sound ∧
      graph.Relabeled after ∧ after.size + (!entry.deleted).toNat = graph.size ∧
      ∀ other, after.stored? other =
        if other = key then some { entry with deleted := true } else graph.stored? other := by
  obtain ⟨cell, hcell, rfl⟩ := stored?_eq_some_iff.mp hentry
  have hremove := Store.tombstone_eq hcell
  cases hdeleted : cell.deleted with
  | true =>
      refine ⟨graph, by simp [remove, hremove, hdeleted, Cell.entry], hsound, .refl graph,
        by simp [Cell.entry, hdeleted], fun other => ?_⟩
      split
      · next heq => simp [heq, hentry, Cell.entry, hdeleted]
      · rfl
  | false =>
      have hrelabeled : graph.Relabeled { graph with store := graph.store.bury key cell } :=
        relabeled_of_cell? (Store.cell?_bury hcell) hcell rfl (Store.size_bury _ _ _)
      refine ⟨{ graph with store := graph.store.bury key cell },
        by simp [remove, hremove, hdeleted, Cell.entry],
        hrelabeled.sound hsound (hsound.tidy.bury hcell hdeleted), hrelabeled, ?_,
        fun other => stored?_of_cell? (Store.cell?_bury hcell) other⟩
      have hlive : 0 < graph.store.live := hsound.tidy.live_pos hcell hdeleted
      simp only [Cell.entry, hdeleted, Bool.not_false, Bool.toNat_true]
      exact Nat.sub_add_cancel hlive

/-- Remove elements in order, and count those that were live until then. -/
def removeAll (graph : Graph α) : List Key → Except Fault (Nat × Graph α)
  | [] => return (0, graph)
  | key :: rest => do
      let (removed, graph) ← graph.remove key
      let (count, graph) ← graph.removeAll rest
      return (if removed then count + 1 else count, graph)

/-- Removing elements that are stored turns their entries into those of tombstones. -/
theorem removeAll_spec (hsound : graph.Sound)
    (hstored : ∀ key ∈ keys, ∃ entry, graph.stored? key = some entry) :
    ∃ count after, graph.removeAll keys = .ok (count, after) ∧ after.Sound ∧
      graph.Relabeled after ∧ after.size + count = graph.size ∧
      ∀ other, after.stored? other =
        (graph.stored? other).map fun entry =>
          if other ∈ keys then { entry with deleted := true } else entry := by
  induction keys generalizing graph with
  | nil => exact ⟨0, graph, rfl, hsound, .refl graph, rfl, by simp⟩
  | cons key rest ih =>
      obtain ⟨entry, hentry⟩ := hstored key List.mem_cons_self
      obtain ⟨middle, hremove, hmiddle, hrelabeled, hsize, hentries⟩ := remove_spec hsound hentry
      have hstoredRest (other : Key) (hother : other ∈ rest) :
          ∃ entry, middle.stored? other = some entry := by
        rw [hentries]
        split
        · exact ⟨_, rfl⟩
        · exact hstored other (List.mem_cons_of_mem key hother)
      obtain ⟨count, after, hrest, hafter, hrelabeledRest, hsizeRest, hentriesRest⟩ :=
        ih hmiddle hstoredRest
      refine ⟨if !entry.deleted then count + 1 else count, after,
        by simp [removeAll, hremove, hrest], hafter, hrelabeled.trans hrelabeledRest, ?_,
        fun other => ?_⟩
      · rw [← hsize, ← hsizeRest]
        cases entry.deleted <;> simp [Nat.add_assoc]
      rw [hentriesRest, hentries]
      by_cases hother : other = key
      · simp [hother, hentry]
      · simp [hother]

end Relabeling

section RemoveGroup

/-- What a key resolves to, as far as its content is concerned, is not changed by a removal. -/
theorem get_remove {removed : Bool} (hremove : graph.remove key = .ok (removed, after))
    (other : Key) : after.store.get other = graph.store.get other := by
  simp only [remove, Store.tombstone, bind_eq_ok] at hremove
  obtain ⟨result, ⟨cell, hcell, htombstone⟩, hafter⟩ := hremove
  split at htombstone
  · cases htombstone
    cases hafter
    rfl
  · cases htombstone
    cases hafter
    simp only [Store.get]
    rw [show Store.cell { graph.store.put key { cell with deleted := true } with
        live := graph.store.live - 1 } other =
      (graph.store.put key { cell with deleted := true }).cell other from rfl,
      Store.cell_put hcell]
    split
    · next heq => simp [heq, hcell]
    · rfl

/-- Walks meet the same elements after a removal. -/
theorem walk_remove {removed : Bool} (hremove : graph.remove key = .ok (removed, after))
    (bound : Nat) (cursor : Option Key) : after.walk bound cursor = graph.walk bound cursor := by
  induction bound generalizing cursor with
  | zero => cases cursor <;> rfl
  | succ bound ih =>
      cases cursor with
      | none => rfl
      | some key => simp only [walk, get_remove hremove, ih]

/-- Removing elements from a cursor on is removing those that a walk from there meets. -/
theorem removeFrom_eq (graph : Graph α) (bound : Nat) (cursor : Option Key) :
    graph.removeFrom bound cursor = graph.walk bound cursor >>= graph.removeAll := by
  induction bound generalizing graph cursor with
  | zero => cases cursor <;> rfl
  | succ bound ih =>
      cases cursor with
      | none => rfl
      | some key =>
          cases hremove : graph.remove key with
          | error fault =>
              have hget : graph.store.get key = .error fault := by
                simp only [remove, Store.tombstone, bind_eq_error] at hremove
                rcases hremove with (hcell | ⟨cell, -, hfault⟩) | ⟨_, -, hfault⟩
                · simp [Store.get, hcell]
                · split at hfault <;> cases hfault
                · cases hfault
              simp [removeFrom, walk, hremove, hget]
          | ok result =>
              obtain ⟨removed, after⟩ := result
              have hget := get_remove hremove key
              simp only [removeFrom, walk, hremove, ok_bind, hget, ih, walk_remove hremove]
              cases graph.store.get key with
              | error fault => rfl
              | ok node =>
                  cases hwalk : graph.walk bound node.next with
                  | error fault => simp [hwalk]
                  | ok rest => simp [hwalk, removeAll, hremove]

/-- Removing a group is removing the elements of its chain. -/
theorem removeGroup_eq (graph : Graph α) (number : Nat) :
    graph.removeGroup number = graph.chain number >>= graph.removeAll := by
  simp only [removeGroup, chain, removeFrom_eq]
  cases graph.group number <;> rfl

end RemoveGroup

section AddGroup

@[simp]
theorem stored?_empty (kind : IndexKind) (key : Key) :
    (empty kind : Graph α).stored? key = none := by
  simp [stored?, empty]

theorem sound_empty (kind : IndexKind) : (empty kind : Graph α).Sound where
  tidy := Store.tidy_empty
  chained number hnumber := absurd hnumber (Nat.not_lt_zero number)
  grouped key place hplace := by simp [place?] at hplace
  numbered key place hplace := by simp [place?] at hplace
  distinct key other place place' hplace := by simp [place?] at hplace
  slots_le := Nat.le_refl _
  width_eq := rfl
  outline_eq := rfl
  lastGroup_eq := rfl

/-- A graph to which a group without elements was added behind the last one. -/
structure Extended (graph after : Graph α) : Prop where
  store_eq : after.store = graph.store
  size_eq : after.groups.size = graph.groups.size + 1
  head?_eq : ∀ number, after.head? number = graph.head? number
  last?_eq : ∀ number, after.last? number = graph.last? number
  nextId_eq : after.nextId = graph.nextId
  outline_eq : after.outline = outlineOf (graph.groups.size + 1)
  lastGroup_eq : after.lastGroup = some graph.groups.size

theorem head?_of_size_le (hnumber : graph.groups.size ≤ number) : graph.head? number = none := by
  simp [head?, hnumber]

theorem last?_of_size_le (hnumber : graph.groups.size ≤ number) : graph.last? number = none := by
  simp [last?, hnumber]

theorem getElem?_outlineOf (size place : Nat) :
    (outlineOf size)[place]? =
      if place < size then some (if place + 1 < size then some (place + 1) else none)
      else none := by
  by_cases hplace : place < size <;> simp [outlineOf, hplace]

/-- With one more group, the group that was last is followed by the new one. -/
theorem outlineOf_succ (last : Nat) :
    outlineOf (last + 2) = (outlineOf (last + 1)).set last (some (last + 1)) ++ [none] := by
  apply List.ext_getElem?
  intro place
  have hlength : ((outlineOf (last + 1)).set last (some (last + 1))).length = last + 1 := by
    simp [outlineOf]
  rw [List.getElem?_append, hlength, List.getElem?_set, getElem?_outlineOf, getElem?_outlineOf]
  rcases Nat.lt_trichotomy place last with hlt | heq | hgt
  · have hne : last ≠ place := fun heq => by omega
    have hlt' : place < last + 1 := by omega
    have hlt'' : place < last + 2 := by omega
    simp [hlt, hne, hlt', hlt'']
  · subst heq
    simp [outlineOf]
  · by_cases hend : place = last + 1
    · subst hend
      simp
    · have hge : ¬place < last + 2 := by omega
      have hge' : ¬place < last + 1 := by omega
      rw [if_neg hge, if_neg hge', List.getElem?_eq_none]
      rw [List.length_singleton]
      omega

theorem addGroup_spec (hsound : graph.Sound) :
    ∃ after, graph.addGroup = .ok (graph.groups.size, after) ∧ graph.Extended after := by
  have hlastGroup := hsound.lastGroup_eq
  have houtline := hsound.outline_eq
  -- A group without elements has no ends, whether it is new or was never added.
  have hpush (groups : Array Group) (end? : Group → Option Key) (hend : end? {} = none)
      (number : Nat) : ((groups.push {})[number]?).bind end? = groups[number]?.bind end? := by
    rw [Array.getElem?_push]
    split
    · next heq => simp [heq, hend]
    · rfl
  by_cases hsize : graph.groups.size = 0
  · rw [if_pos hsize] at hlastGroup
    refine ⟨{ graph with groups := graph.groups.push {}, lastGroup := some graph.groups.size },
      by simp [addGroup, linkGroup, hlastGroup], rfl, by simp, hpush _ _ rfl, hpush _ _ rfl, rfl,
      ?_, rfl⟩
    have hnil : graph.groups.toList = [] := by simpa using hsize
    simp [outline, hnil, hsize, outlineOf]
  · obtain ⟨last, hlast⟩ := Nat.exists_eq_succ_of_ne_zero hsize
    have hlt : last < graph.groups.size := by omega
    rw [if_neg hsize, hlast] at hlastGroup
    let linked := graph.setGroup last { graph.groups[last] with next := some graph.groups.size }
    have hlink : graph.linkGroup graph.lastGroup graph.groups.size = .ok linked := by
      simp [linkGroup, hlastGroup, group_eq hlt, linked]
    refine ⟨{ linked with groups := linked.groups.push {}, lastGroup := some graph.groups.size },
      by simp [addGroup, hlink], rfl, by simp [linked], ?_, ?_, rfl,
      ?_, rfl⟩
    · intro number
      apply (hpush linked.groups Group.first rfl number).trans
      refine (head?_setGroup hlt _ number).trans ?_
      split
      · next heq => simp [heq, head?, hlt]
      · rfl
    · intro number
      apply (hpush linked.groups Group.last rfl number).trans
      refine (last?_setGroup hlt _ number).trans ?_
      split
      · next heq => simp [heq, last?, hlt]
      · rfl
    · have hset := outline_setGroup graph last
        { graph.groups[last] with next := some graph.groups.size }
      rw [houtline, hlast] at hset
      rw [hlast, outlineOf_succ, ← hset]
      simp [outline, linked, hlast]

namespace Extended

variable (hextended : graph.Extended after)

include hextended

theorem stored?_eq (key : Key) : after.stored? key = graph.stored? key := by
  rw [stored?, stored?, hextended.store_eq]

theorem place?_eq (key : Key) : after.place? key = graph.place? key := by
  rw [place?, place?, hextended.stored?_eq]

theorem chain (hchain : graph.Chain number keys) : after.Chain number keys := by
  refine hchain.congr (hextended.head?_eq number) (hextended.last?_eq number)
    (fun key _ => ?_) fun key id => ?_
  · rw [node?, node?, hextended.store_eq]
  · rw [hextended.place?_eq]

theorem sound (hsound : graph.Sound) : after.Sound := by
  have hsize := hextended.size_eq
  have hplace := hextended.place?_eq
  refine ⟨hextended.store_eq ▸ hsound.tidy, ?_, ?_, ?_, ?_, ?_, ?_, ?_, ?_⟩
  · intro number hnumber
    by_cases hnew : number = graph.groups.size
    · have hempty : graph.Chain number [] := by
        refine ⟨?_, ?_, ?_, .nil⟩
        · rw [head?_of_size_le (Nat.le_of_eq hnew.symm)]
          exact .nil none
        · rw [last?_of_size_le (Nat.le_of_eq hnew.symm)]
          rfl
        · intro key
          constructor
          · intro hmem
            cases hmem
          · rintro ⟨id, hkey⟩
            have hlt := hsound.grouped key _ hkey
            exact absurd hlt (by simp [hnew])
      exact ⟨[], hextended.chain hempty⟩
    · obtain ⟨keys, hchain⟩ := hsound.chained number (by omega)
      exact ⟨keys, hextended.chain hchain⟩
  · intro key place hkey
    have hlt := hsound.grouped key place (hplace key ▸ hkey)
    omega
  · intro key place hkey
    exact hextended.nextId_eq ▸ hsound.numbered key place (hplace key ▸ hkey)
  · intro first second place place' hfirst hsecond hsame
    exact hsound.distinct first second place place' (hplace first ▸ hfirst)
      (hplace second ▸ hsecond) hsame
  · rw [hextended.store_eq, hextended.nextId_eq]
    exact hsound.slots_le
  · rw [hextended.nextId_eq, hsound.width_eq]
  · rw [hextended.outline_eq, hsize]
  · rw [hextended.lastGroup_eq, hsize]
    rfl

end Extended

end AddGroup

end FormalLanguages.Graph
