/-
# A chain is the list that its links spell

The elements of a group are threaded by keys: the group keeps the first one, and each element the
key of its successor.  Following these links from a cursor spells a list of keys, and `Links` says
which.  A part of a chain runs from one cursor to another, so chains are taken apart and put
together like the lists they spell.

A group's chain is more than a list that ends: it holds the stored elements of the group and no
others, in the order of their numbers, and the group knows its last element.  This is `Chain`, the
shape that every change of a graph has to restore.
-/

import FormalLanguages.Graph
import FormalLanguages.Proofs.Store

namespace FormalLanguages

/-- Where an element stands among all elements: by its group, and in its group by its number. -/
structure Place where
  group : Nat
  id : Nat
  deriving DecidableEq, Repr

/-- Places are ordered by group, and within one group by number. -/
instance : LT Place where
  lt first second := first.group < second.group ∨ first.group = second.group ∧ first.id < second.id

theorem Place.lt_iff {first second : Place} :
    first < second ↔
      first.group < second.group ∨ first.group = second.group ∧ first.id < second.id := Iff.rfl

theorem Place.lt_irrefl (place : Place) : ¬place < place := by
  rw [Place.lt_iff]
  omega

theorem Place.lt_trans {first second third : Place} (hfirst : first < second)
    (hsecond : second < third) : first < third := by
  rw [Place.lt_iff] at *
  omega

/-- The place of a stored element. -/
def Node.place {α : Type} (node : Node α) : Place := ⟨node.group, node.id⟩

/-- The place of an element as it is read. -/
def Element.place {α : Type} (element : Element α) : Place := ⟨element.group, element.id⟩

/-- A cell whose element is followed by another one. -/
def Cell.follow {α : Type} (cell : Cell (Node α)) (next : Option Key) : Cell (Node α) :=
  { cell with content := { cell.content with next } }

/-- All that is stored of an element apart from its link: what can be read of it, and how many
references to it there are. -/
structure Entry (α : Type) extends Element α where
  references : Nat
  deriving DecidableEq, Repr

/-- The entry of a cell. -/
def Cell.entry {α : Type} (cell : Cell (Node α)) : Entry α where
  id := cell.content.id
  group := cell.content.group
  data := cell.content.data
  deleted := cell.deleted
  references := cell.references

/-- A cell is settled by its content and its entry. -/
theorem Cell.eq_of_entry_eq {α : Type} {cell other : Cell (Node α)}
    (hcontent : other.content = cell.content) (hentry : other.entry = cell.entry) :
    other = cell := by
  obtain ⟨content, references, deleted⟩ := cell
  obtain ⟨content', references', deleted'⟩ := other
  simp_all [Cell.entry]

namespace Graph

variable {α : Type} {graph after : Graph α}

/-- The entry of the element stored at a key. -/
def stored? (graph : Graph α) (key : Key) : Option (Entry α) :=
  (graph.store.cell? key).map Cell.entry

/-- The element stored at a key, live or removed, with its link. -/
def node? (graph : Graph α) (key : Key) : Option (Node α) :=
  (graph.store.cell? key).map Cell.content

/-- The place of the element stored at a key. -/
def place? (graph : Graph α) (key : Key) : Option Place :=
  (graph.stored? key).map fun entry => entry.place

/-- The place of the element stored at a key, or the least place if there is none. -/
def placeAt (graph : Graph α) (key : Key) : Place := (graph.place? key).getD ⟨0, 0⟩

/-- The last element of a group; a group that was never added has none. -/
def last? (graph : Graph α) (number : Nat) : Option Key :=
  graph.groups[number]?.bind Group.last

theorem node?_eq_some_iff {key : Key} {node : Node α} :
    graph.node? key = some node ↔
      ∃ cell, graph.store.cell? key = some cell ∧ cell.content = node := by
  simp [node?]

theorem get_eq_of_node? {key : Key} {node : Node α} (hnode : graph.node? key = some node) :
    graph.store.get key = .ok node := by
  obtain ⟨cell, hcell, rfl⟩ := node?_eq_some_iff.mp hnode
  exact Store.get_eq hcell

theorem stored?_eq_some_iff {key : Key} {entry : Entry α} :
    graph.stored? key = some entry ↔
      ∃ cell, graph.store.cell? key = some cell ∧ cell.entry = entry := by
  simp [stored?]

theorem stored?_eq_entry {key : Key} {cell : Cell (Node α)}
    (hcell : graph.store.cell? key = some cell) : graph.stored? key = some cell.entry :=
  stored?_eq_some_iff.mpr ⟨cell, hcell, rfl⟩

theorem element_eq_ok_iff {key : Key} {element : Element α} :
    graph.element key = .ok element ↔
      ∃ entry, graph.stored? key = some entry ∧ entry.toElement = element := by
  cases hcell : graph.store.cell key with
  | ok cell => simp [Graph.element, hcell, stored?, Store.cell_eq_ok_iff.mp hcell, Cell.entry]
  | error fault =>
      have hnone : graph.store.cell? key = none := by simp [Store.cell?, hcell, Except.toOption]
      simp [Graph.element, hcell, stored?, hnone]

theorem element_of_stored {key : Key} {entry : Entry α}
    (hentry : graph.stored? key = some entry) : graph.element key = .ok entry.toElement :=
  element_eq_ok_iff.mpr ⟨entry, hentry, rfl⟩

theorem isDeleted_of_stored {key : Key} {entry : Entry α}
    (hentry : graph.stored? key = some entry) :
    graph.store.isDeleted key = .ok entry.deleted := by
  have ⟨cell, hcell, hcellEntry⟩ := stored?_eq_some_iff.mp hentry
  rw [Store.isDeleted_eq hcell, ← hcellEntry, Cell.entry]

theorem place?_eq_some_iff {key : Key} {place : Place} :
    graph.place? key = some place ↔
      ∃ entry, graph.stored? key = some entry ∧ entry.place = place := by
  simp [place?]

theorem place?_of_stored {key : Key} {entry : Entry α}
    (hentry : graph.stored? key = some entry) : graph.place? key = some entry.place :=
  place?_eq_some_iff.mpr ⟨entry, hentry, rfl⟩

/-- What is asked of the place of a stored element can be asked of the element as it is read. -/
theorem exists_place_iff {region : Place → Prop} {key : Key} :
    (∃ place, graph.place? key = some place ∧ region place) ↔
      ∃ element, graph.element key = .ok element ∧ region element.place := by
  constructor
  · rintro ⟨place, hplace, hregion⟩
    obtain ⟨entry, hentry, rfl⟩ := place?_eq_some_iff.mp hplace
    exact ⟨_, element_of_stored hentry, hregion⟩
  · rintro ⟨element, helement, hregion⟩
    obtain ⟨entry, hentry, rfl⟩ := element_eq_ok_iff.mp helement
    exact ⟨_, place?_of_stored hentry, hregion⟩

theorem place?_of_node? {key : Key} {node : Node α} (hnode : graph.node? key = some node) :
    graph.place? key = some node.place := by
  obtain ⟨cell, hcell, rfl⟩ := node?_eq_some_iff.mp hnode
  simp [place?, stored?, hcell, Cell.entry, Element.place, Node.place]

theorem placeAt_eq {key : Key} {place : Place} (hplace : graph.place? key = some place) :
    graph.placeAt key = place := by
  simp [placeAt, hplace]

theorem placeAt_of_element {key : Key} {element : Element α}
    (helement : graph.element key = .ok element) : graph.placeAt key = element.place := by
  obtain ⟨entry, hentry, rfl⟩ := element_eq_ok_iff.mp helement
  exact placeAt_eq (place?_of_stored hentry)

/-- Following links from the first cursor to the second meets the listed keys. -/
inductive Links (graph : Graph α) : Option Key → List Key → Option Key → Prop
  | nil (cursor : Option Key) : Links graph cursor [] cursor
  | cons {key : Key} {node : Node α} {rest : List Key} {stop : Option Key}
      (hnode : graph.node? key = some node) (hrest : Links graph node.next rest stop) :
      Links graph (some key) (key :: rest) stop

namespace Links

variable {start middle stop : Option Key} {keys first second : List Key} {key : Key}

theorem start_eq_head? (hlinks : graph.Links start keys none) : start = keys.head? := by
  cases hlinks <;> rfl

theorem nil_iff : graph.Links start [] stop ↔ start = stop := by
  constructor
  · intro hlinks
    cases hlinks
    rfl
  · rintro rfl
    exact .nil start

theorem cons_iff :
    graph.Links start (key :: keys) stop ↔
      start = some key ∧ ∃ node, graph.node? key = some node ∧ graph.Links node.next keys stop := by
  constructor
  · intro hlinks
    cases hlinks with
    | cons hnode hrest => exact ⟨rfl, _, hnode, hrest⟩
  · rintro ⟨rfl, node, hnode, hrest⟩
    exact .cons hnode hrest

/-- A list is spelled in two parts exactly if the parts are spelled one after the other. -/
theorem append_iff :
    graph.Links start (first ++ second) stop ↔
      ∃ middle, graph.Links start first middle ∧ graph.Links middle second stop := by
  induction first generalizing start with
  | nil =>
      constructor
      · intro hlinks
        exact ⟨start, .nil start, hlinks⟩
      · rintro ⟨middle, hfirst, hsecond⟩
        rw [nil_iff.mp hfirst]
        exact hsecond
  | cons key rest ih =>
      rw [List.cons_append, cons_iff]
      constructor
      · rintro ⟨rfl, node, hnode, hlinks⟩
        obtain ⟨middle, hrest, hsecond⟩ := ih.mp hlinks
        exact ⟨middle, .cons hnode hrest, hsecond⟩
      · rintro ⟨middle, hfirst, hsecond⟩
        obtain ⟨rfl, node, hnode, hrest⟩ := cons_iff.mp hfirst
        exact ⟨rfl, node, hnode, ih.mpr ⟨middle, hrest, hsecond⟩⟩

theorem stored_of_mem (hlinks : graph.Links start keys stop) (hmem : key ∈ keys) :
    ∃ node, graph.node? key = some node := by
  induction hlinks with
  | nil => cases hmem
  | cons hnode _ ih =>
      rcases List.mem_cons.mp hmem with rfl | hrest
      · exact ⟨_, hnode⟩
      · exact ih hrest

/-- What a chain spells depends only on the elements that it meets. -/
theorem congr (hlinks : graph.Links start keys stop)
    (hsame : ∀ key ∈ keys, after.node? key = graph.node? key) : after.Links start keys stop := by
  induction hlinks with
  | nil cursor => exact .nil cursor
  | cons hnode _ ih =>
      refine .cons ((hsame _ List.mem_cons_self).trans hnode) (ih fun key hkey => ?_)
      exact hsame key (List.mem_cons_of_mem _ hkey)

/-- Changing only the link of its last element leads a part of a chain elsewhere.  A part without
elements leads wherever it starts. -/
theorem redirect {target : Option Key} (hlinks : graph.Links start keys stop)
    (hnodup : keys.Nodup)
    (hlast : ∀ key node, keys.getLast? = some key → graph.node? key = some node →
      after.node? key = some { node with next := target })
    (hsame : ∀ key ∈ keys, keys.getLast? ≠ some key → after.node? key = graph.node? key) :
    after.Links (if keys = [] then target else start) keys target := by
  induction hlinks with
  | nil => exact .nil target
  | @cons key node rest stop hnode hrest ih =>
      rw [if_neg (List.cons_ne_nil key rest)]
      obtain ⟨hkey, hrestNodup⟩ := List.nodup_cons.mp hnodup
      cases rest with
      | nil => exact .cons (hlast key node rfl hnode) (.nil target)
      | cons second rest =>
          have hends : (key :: second :: rest).getLast? = (second :: rest).getLast? :=
            List.getLast?_cons_cons
          have hne : (second :: rest).getLast? ≠ some key := fun heq =>
            hkey (List.mem_of_getLast? heq)
          refine .cons ((hsame key List.mem_cons_self (hends ▸ hne)).trans hnode) ?_
          have htail := ih hrestNodup (fun last node hend => hlast last node (hends.trans hend))
            fun other hother hend =>
              hsame other (List.mem_cons_of_mem key hother) fun heq => hend (hends.symm.trans heq)
          rwa [if_neg (List.cons_ne_nil second rest)] at htail

/-- The links from a cursor to the end of a chain spell one list only. -/
theorem unique {others : List Key} (hlinks : graph.Links start keys none)
    (hothers : graph.Links start others none) : keys = others := by
  generalize hstop : (none : Option Key) = stop at hlinks
  induction hlinks generalizing others with
  | nil cursor =>
      subst hstop
      cases hothers
      rfl
  | cons hnode _ ih =>
      cases hothers with
      | cons hnode' hrest =>
          cases hnode.symm.trans hnode'
          rw [ih hrest hstop]

/-- A walk along a chain that fits into its bound gives the keys of the chain. -/
theorem walk_eq {bound : Nat} (hlinks : graph.Links start keys none)
    (hbound : keys.length ≤ bound) : graph.walk bound start = .ok keys := by
  generalize hstop : (none : Option Key) = stop at hlinks
  induction hlinks generalizing bound with
  | nil => subst hstop; cases bound <;> rfl
  | @cons key node rest stop hnode _ ih =>
      cases bound with
      | zero => simp at hbound
      | succ bound =>
          have hrest := ih (Nat.le_of_succ_le_succ hbound) hstop
          simp [walk, get_eq_of_node? hnode, hrest]

end Links

/-- The chain of a group: its links spell the list from its first element to its last, and the
list holds the group's stored elements in the order of their numbers. -/
structure Chain (graph : Graph α) (number : Nat) (keys : List Key) : Prop where
  links : graph.Links (graph.head? number) keys none
  last_eq : graph.last? number = keys.getLast?
  mem_iff : ∀ key, key ∈ keys ↔ ∃ id, graph.place? key = some ⟨number, id⟩
  increasing : keys.Pairwise fun first second => graph.placeAt first < graph.placeAt second

end Graph

end FormalLanguages
