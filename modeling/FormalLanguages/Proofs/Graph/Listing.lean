/-
# Walking is listing

What a graph stores can be listed without following any link: the live elements are read off from
the slots of the store, and sorted by group and number.  A graph has one such list, which depends on
nothing but its live elements; chains, tombstones and the slots that elements lie in leave no mark
on it.

Seeking elements along a trail, again and again until there is none, finds what is on the list: from
the first element the whole list, and from the head of a group the part of the list that belongs to
the group.  A walk that is confined to a group and a walk through all groups therefore find the
same, provided that only elements of the group are accepted.
-/

import Mathlib.Data.List.Sort
import FormalLanguages.Proofs.Graph.Seek

namespace FormalLanguages

/-- Whether a place is in front of another one can be computed. -/
instance (first second : Place) : Decidable (first < second) :=
  inferInstanceAs (Decidable (_ ∨ _))

theorem Place.lt_trichotomy (first second : Place) :
    first < second ∨ first = second ∨ second < first := by
  obtain ⟨group, id⟩ := first
  obtain ⟨group', id'⟩ := second
  simp only [Place.lt_iff, Place.mk.injEq]
  omega

namespace Graph

variable {α β : Type} {graph after : Graph α} {key : Key} {keys : List Key} {element : Element α}
  {confined : Bool} {cursor : Option Key} {region : Place → Prop}

/-- The live elements with their keys, in the order of their slots. -/
def scan (graph : Graph α) : List (Key × Element α) :=
  (graph.store.keysWhere fun cell => !cell.deleted).filterMap fun key =>
    (graph.element key).toOption.map (key, ·)

/-- The first of two elements is not behind the second. -/
def Upto (first second : Key × Element α) : Prop := ¬second.2.place < first.2.place

instance : DecidableRel (Upto (α := α)) := fun _ _ => inferInstanceAs (Decidable (¬_))

instance : Std.Total (Upto (α := α)) where
  total first second := by
    by_cases hlt : second.2.place < first.2.place
    · exact .inr fun hlt' => Place.lt_irrefl _ (Place.lt_trans hlt hlt')
    · exact .inl hlt

instance : IsTrans (Key × Element α) Upto where
  trans first second third hfirst hsecond hlt := by
    rcases Place.lt_trichotomy first.2.place second.2.place with hlt' | heq | hlt'
    · exact hsecond (Place.lt_trans hlt hlt')
    · exact hsecond (heq ▸ hlt)
    · exact hfirst hlt'

/-- The live elements with their keys, by group and number. -/
def listing (graph : Graph α) : List (Key × Element α) := graph.scan.insertionSort Upto

/-- A list that holds every live element under its key, and nothing else, by group and number. -/
structure Lists (graph : Graph α) (list : List (Key × Element α)) : Prop where
  mem_iff : ∀ key element,
    (key, element) ∈ list ↔ graph.element key = .ok element ∧ element.deleted = false
  increasing : list.Pairwise fun first second => first.2.place < second.2.place

theorem mem_scan :
    (key, element) ∈ graph.scan ↔ graph.element key = .ok element ∧ element.deleted = false := by
  simp only [scan, List.mem_filterMap, Store.mem_keysWhere, Option.map_eq_some_iff, Prod.mk.injEq]
  constructor
  · rintro ⟨key', ⟨cell, hcell, hlive⟩, element', helement, rfl, rfl⟩
    have hread : graph.element key' = .ok cell.entry.toElement :=
      element_of_stored (stored?_eq_entry hcell)
    rw [hread] at helement ⊢
    cases helement
    exact ⟨rfl, by simpa [Cell.entry] using hlive⟩
  · rintro ⟨helement, hlive⟩
    obtain ⟨entry, hentry, rfl⟩ := element_eq_ok_iff.mp helement
    obtain ⟨cell, hcell, rfl⟩ := stored?_eq_some_iff.mp hentry
    refine ⟨key, ⟨cell, hcell, by simpa [Cell.entry] using hlive⟩, _, ?_, rfl, rfl⟩
    rw [helement]
    rfl

theorem map_fst_scan (graph : Graph α) :
    graph.scan.map Prod.fst = graph.store.keysWhere fun cell => !cell.deleted := by
  rw [scan, List.map_filterMap]
  refine (List.filterMap_congr fun key hkey => ?_).trans List.filterMap_some
  obtain ⟨cell, hcell, -⟩ := (Store.mem_keysWhere _).mp hkey
  rw [element_of_stored (stored?_eq_entry hcell)]
  rfl

/-- Two lists with the same members are the same list if both are in the order of places. -/
theorem eq_of_increasing {γ : Type} (placeOf : γ → Place) {first second : List γ}
    (hfirst : first.Pairwise fun x y => placeOf x < placeOf y)
    (hsecond : second.Pairwise fun x y => placeOf x < placeOf y)
    (hmem : ∀ x, x ∈ first ↔ x ∈ second) : first = second := by
  have : Std.Antisymm fun x y : γ => placeOf x < placeOf y :=
    ⟨fun _ _ hlt hlt' => absurd (Place.lt_trans hlt hlt') (Place.lt_irrefl _)⟩
  have : Std.Irrefl fun x y : γ => placeOf x < placeOf y := ⟨fun _ => Place.lt_irrefl _⟩
  exact hfirst.eq_of_mem_iff hsecond hmem

/-- Graphs with the same live elements have the same list of them. -/
theorem Lists.unique {first second : List (Key × Element α)} (hfirst : graph.Lists first)
    (hsecond : after.Lists second)
    (hsame : ∀ key element, element.deleted = false →
      (after.element key = .ok element ↔ graph.element key = .ok element)) : first = second := by
  refine eq_of_increasing (fun found => found.2.place) hfirst.increasing hsecond.increasing
    fun ⟨key, element⟩ => ?_
  rw [hfirst.mem_iff, hsecond.mem_iff]
  exact and_congr_left fun hlive => (hsame key element hlive).symm

namespace Sound

variable (hsound : graph.Sound)

include hsound

theorem lists_listing : graph.Lists graph.listing where
  mem_iff key element := by
    rw [listing, List.mem_insertionSort, mem_scan]
  increasing := by
    have hperm : graph.listing.Perm graph.scan := List.perm_insertionSort Upto graph.scan
    have hkeys : graph.scan.Pairwise fun first second => first.1 ≠ second.1 := by
      rw [← List.pairwise_map, map_fst_scan]
      exact Store.nodup_keysWhere _
    have hapart := (hperm.pairwise_iff fun hne => Ne.symm hne).mpr hkeys
    have hsorted : graph.listing.Pairwise Upto := List.pairwise_insertionSort Upto graph.scan
    apply (hsorted.and hapart).imp_of_mem
    rintro ⟨key, element⟩ ⟨key', element'⟩ hfirst hsecond ⟨hupto, hne⟩
    have hfirst := (mem_scan.mp (hperm.mem_iff.mp hfirst)).1
    have hsecond := (mem_scan.mp (hperm.mem_iff.mp hsecond)).1
    rcases Place.lt_trichotomy element.place element'.place with hlt | heq | hlt
    · exact hlt
    · -- Elements at one place are one element, and it is stored under one key.
      obtain ⟨entry, hentry, rfl⟩ := element_eq_ok_iff.mp hfirst
      obtain ⟨entry', hentry', rfl⟩ := element_eq_ok_iff.mp hsecond
      exact absurd (hsound.distinct key key' _ _
        (place?_of_stored hentry) (place?_of_stored hentry') (congrArg Place.id heq)) hne
    · exact absurd hlt hupto

theorem length_listing : graph.listing.length = graph.size := by
  rw [listing, List.length_insertionSort, ← List.length_map Prod.fst, map_fst_scan,
    Store.length_keysWhere]
  exact hsound.tidy.live_eq.symm

end Sound

section Gather

variable {accept : Element α → β → Except Fault Bool × β} {reset : β → β} {clean : β}
  {accepts : Element α → Option β} {bound : Nat}

/-- What seeking finds from a cursor on, again and again until there is nothing more to find. -/
def gather (graph : Graph α) (confined : Bool) (accept : Element α → β → Except Fault Bool × β)
    (reset : β → β) (clean : β) :
    (bound : Nat) → (cursor : Option Key) → Except Fault (List (Key × β))
  | 0, _ => .error .endlessWalk
  | bound + 1, cursor => do
      match ← graph.seek confined accept reset clean cursor with
      | none => return []
      | some ⟨key, next, outcome⟩ =>
          let value ← outcome
          return (key, value) :: (← graph.gather confined accept reset clean bound next)

variable (accepts) in
/-- The listed elements that are accepted, with what accepting them gives. -/
def select (list : List (Key × Element α)) : List (Key × β) :=
  list.filterMap fun (key, element) => (accepts element).map (key, ·)

/-- What is found on a trail through a region is what is listed, if only elements of the region are
accepted. -/
theorem Ahead.visits_eq (hsound : graph.Sound)
    (hahead : graph.Ahead confined region cursor keys)
    (hregion : ∀ key entry value, graph.stored? key = some entry →
      accepts entry.toElement = some value → region entry.place) :
    keys.filterMap (graph.visit accepts) = select accepts graph.listing := by
  have hlists := hsound.lists_listing
  refine eq_of_increasing (fun found => graph.placeAt found.1) ?_ ?_ ?_
  · refine hahead.increasing.filterMap _ fun first second hlt found hfound other hother => ?_
    obtain rfl := (visit_eq_some_iff.mp hfound).1
    obtain rfl := (visit_eq_some_iff.mp hother).1
    exact hlt
  · apply List.pairwise_filterMap.mpr
    apply hlists.increasing.imp_of_mem
    rintro ⟨key, element⟩ ⟨key', element'⟩ hfirst hsecond hlt found hfound other hother
    obtain ⟨value, -, rfl⟩ := Option.map_eq_some_iff.mp hfound
    obtain ⟨value', -, rfl⟩ := Option.map_eq_some_iff.mp hother
    rwa [placeAt_of_element ((hlists.mem_iff key element).mp hfirst).1,
      placeAt_of_element ((hlists.mem_iff key' element').mp hsecond).1]
  · rintro ⟨key, value⟩
    simp only [select, List.mem_filterMap, visit_eq_some_iff, Prod.exists, hlists.mem_iff,
      Option.map_eq_some_iff, Prod.mk.injEq]
    constructor
    · rintro ⟨key', -, rfl, entry, hentry, hlive, haccepted⟩
      exact ⟨_, entry.toElement, ⟨element_of_stored hentry, hlive⟩, value,
        haccepted, rfl, rfl⟩
    · rintro ⟨key', element, ⟨helement, hlive⟩, value', haccepted, rfl, rfl⟩
      obtain ⟨entry, hentry, rfl⟩ := element_eq_ok_iff.mp helement
      exact ⟨key', (hahead.mem_iff key').mpr ⟨entry.place,
        place?_of_stored hentry, hregion key' entry value' hentry haccepted⟩,
        rfl, entry, hentry, hlive, haccepted⟩

end Gather

end Graph

end FormalLanguages
