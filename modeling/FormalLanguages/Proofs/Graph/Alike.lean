/-
# Graphs that differ in their tombstones

Two graphs are alike if they can only be told apart by tombstones that one of them still stores and
the other one has freed.  Freeing tombstones in one of two graphs that are alike leaves them alike,
and so does whatever is done in the same way to both, as long as no element is added.

A walk through one and a walk through the other are abreast if the same live elements are onward
from both.  The cursors themselves may be at different elements, because one of them may be at a
tombstone that the other graph no longer has.  Walks that are abreast find the same element next,
and are abreast behind it.
-/

import FormalLanguages.Proofs.Graph.Cover
import FormalLanguages.Proofs.Graph.Listing

namespace FormalLanguages

/-- What two graphs that are alike may store under one key: the same element, or a tombstone in
one of them only, or nothing. -/
inductive Entry.Alike {α : Type} : Option (Entry α) → Option (Entry α) → Prop
  | both {entry other : Entry α} (heq : other.toElement = entry.toElement) :
      Alike (some entry) (some other)
  | first {entry : Entry α} (hdeleted : entry.deleted = true) : Alike (some entry) none
  | second {other : Entry α} (hdeleted : other.deleted = true) : Alike none (some other)
  | neither : Alike none none

theorem Entry.Alike.symm {α : Type} {stored stored' : Option (Entry α)}
    (halike : Entry.Alike stored stored') : Entry.Alike stored' stored := by
  cases halike with
  | both heq => exact .both heq.symm
  | first hdeleted => exact .second hdeleted
  | second hdeleted => exact .first hdeleted
  | neither => exact .neither

namespace Graph

variable {α β : Type} {graph other after next : Graph α} {key : Key} {entry : Entry α}
  {confined : Bool} {cursor cursor' : Option Key}

/-- Graphs that differ in tombstones and in counts of references only. -/
structure Alike (graph other : Graph α) : Prop where
  entries : ∀ key, Entry.Alike (graph.stored? key) (other.stored? key)
  size_eq : other.groups.size = graph.groups.size
  nextId_eq : other.nextId = graph.nextId

/-- A graph after a change that adds no element, and frees none that is referred to. -/
structure Wanes (graph after : Graph α) : Prop where
  held : ∀ key entry, graph.stored? key = some entry → entry.references ≠ 0 →
    ∃ now, after.stored? key = some now ∧ entry.Becomes now
  origin : ∀ key now, after.stored? key = some now →
    ∃ entry, graph.stored? key = some entry ∧ entry.Becomes now
  size_le : graph.groups.size ≤ after.groups.size

theorem Persists.wanes (hpersists : graph.Persists after)
    (hsize : graph.groups.size ≤ after.groups.size) : graph.Wanes after where
  held key entry hentry _ := hpersists.kept key entry hentry
  origin := hpersists.origin
  size_le := hsize

theorem Swept.wanes (hswept : graph.Swept graph.store.reclaimable after) : graph.Wanes after where
  held key entry hentry hheld := by
    obtain ⟨now, hnow, hbecomes, -⟩ := hswept.evolves.kept key entry hentry hheld
    exact ⟨now, hnow, hbecomes⟩
  origin key now hnow := by
    rw [hswept.stored?_eq] at hnow
    split at hnow
    · cases hnow
    · exact ⟨now, hnow, .refl now⟩
  size_le := Nat.le_of_eq hswept.size_eq.symm

theorem Widened.wanes {count : Nat} (hwidened : graph.Widened after count) : graph.Wanes after :=
  hwidened.persists.wanes (hwidened.size_eq ▸ Nat.le_add_right _ _)

theorem Removed.wanes {doomed : Key → Element α → Bool} (hremoved : graph.Removed after doomed) :
    graph.Wanes after :=
  hremoved.persists.wanes (Nat.le_of_eq hremoved.toRelabeled.size_eq.symm)

theorem Wanes.refl (graph : Graph α) : graph.Wanes graph := (Widened.refl graph).wanes

/-- A group without live elements has none until one is added. -/
theorem Wanes.hasLive_eq (hwanes : graph.Wanes after) (hsound : graph.Sound) (hafter : after.Sound)
    {number : Nat} (hnone : graph.hasLive number = .ok false) :
    after.hasLive number = .ok false := by
  obtain ⟨shown, hshown, hiff⟩ := hasLive_spec hsound number
  obtain ⟨shown', hshown', hiff'⟩ := hasLive_spec hafter number
  cases hnone.symm.trans hshown
  cases shown' with
  | false => exact hshown'
  | true =>
      obtain ⟨key, now, hnow, hlive, hgroup⟩ := hiff'.mp rfl
      obtain ⟨entry, hentry, hbecomes⟩ := hwanes.origin key now hnow
      have hsame := hbecomes.toElement_eq hlive
      exact absurd (hiff.mpr ⟨key, entry, hentry, (congrArg Element.deleted hsame).symm.trans hlive,
        hbecomes.group_eq.symm.trans hgroup⟩) (by simp)

namespace Alike

theorem refl (graph : Graph α) : graph.Alike graph where
  entries key := by
    cases graph.stored? key with
    | none => exact .neither
    | some entry => exact .both rfl
  size_eq := rfl
  nextId_eq := rfl

variable (halike : graph.Alike other)

include halike

theorem symm : other.Alike graph where
  entries key := (halike.entries key).symm
  size_eq := halike.size_eq.symm
  nextId_eq := halike.nextId_eq.symm

/-- What is stored in both graphs is the same element. -/
theorem toElement_eq {entry' : Entry α} (hentry : graph.stored? key = some entry)
    (hentry' : other.stored? key = some entry') : entry'.toElement = entry.toElement := by
  have hentries := halike.entries key
  rw [hentry, hentry'] at hentries
  cases hentries with
  | both heq => exact heq

/-- What is live in one of the graphs is live in the other. -/
theorem exists_live (hentry : graph.stored? key = some entry) (hlive : entry.deleted = false) :
    ∃ entry', other.stored? key = some entry' ∧ entry'.toElement = entry.toElement := by
  have hentries := halike.entries key
  rw [hentry] at hentries
  cases hother : other.stored? key with
  | some entry' => exact ⟨entry', rfl, halike.toElement_eq hentry hother⟩
  | none =>
      rw [hother] at hentries
      cases hentries with
      | first hdeleted =>
          rw [hdeleted] at hlive
          cases hlive

theorem element_iff {element : Element α} (hlive : element.deleted = false) :
    other.element key = .ok element ↔ graph.element key = .ok element := by
  constructor
  · intro helement
    obtain ⟨entry, hentry, rfl⟩ := element_eq_ok_iff.mp helement
    obtain ⟨entry', hentry', heq⟩ := halike.symm.exists_live hentry hlive
    exact element_eq_ok_iff.mpr ⟨entry', hentry', heq⟩
  · intro helement
    obtain ⟨entry, hentry, rfl⟩ := element_eq_ok_iff.mp helement
    obtain ⟨entry', hentry', heq⟩ := halike.exists_live hentry hlive
    exact element_eq_ok_iff.mpr ⟨entry', hentry', heq⟩

/-- Graphs that are alike list the same elements. -/
theorem listing_eq (hsound : graph.Sound) (hother : other.Sound) :
    graph.listing = other.listing :=
  hsound.lists_listing.unique hother.lists_listing fun _ _ => halike.element_iff

theorem live_eq (hsound : graph.Sound) (hother : other.Sound) : graph.size = other.size := by
  rw [← hsound.length_listing, ← hother.length_listing, halike.listing_eq hsound hother]

theorem hasLive_eq (hsound : graph.Sound) (hother : other.Sound) (number : Nat) :
    graph.hasLive number = other.hasLive number := by
  obtain ⟨shown, hshown, hiff⟩ := hasLive_spec hsound number
  obtain ⟨shown', hshown', hiff'⟩ := hasLive_spec hother number
  have hsame : shown = true ↔ shown' = true := by
    rw [hiff, hiff']
    constructor
    · rintro ⟨key, entry, hentry, hlive, hgroup⟩
      obtain ⟨entry', hentry', heq⟩ := halike.exists_live hentry hlive
      exact ⟨key, entry', hentry', (congrArg Element.deleted heq).trans hlive,
        (congrArg Element.group heq).trans hgroup⟩
    · rintro ⟨key, entry, hentry, hlive, hgroup⟩
      obtain ⟨entry', hentry', heq⟩ := halike.symm.exists_live hentry hlive
      exact ⟨key, entry', hentry', (congrArg Element.deleted heq).trans hlive,
        (congrArg Element.group heq).trans hgroup⟩
  rw [hshown, hshown', Bool.eq_iff_iff.mpr hsame]

/-- Freeing tombstones in one of two graphs leaves them alike. -/
theorem swept (hswept : graph.Swept graph.store.reclaimable after) : after.Alike other where
  entries key := by
    rw [hswept.stored?_eq]
    split
    · next hkey =>
        obtain ⟨entry, hentry, hdeleted, -⟩ := mem_reclaimable_iff.mp hkey
        have hentries := halike.entries key
        rw [hentry] at hentries
        cases hother : other.stored? key with
        | none => exact .neither
        | some entry' =>
            have heq := halike.toElement_eq hentry hother
            exact .second ((congrArg Element.deleted heq).trans hdeleted)
    · exact halike.entries key
  size_eq := halike.size_eq.trans hswept.size_eq.symm
  nextId_eq := halike.nextId_eq.trans hswept.nextId_eq.symm

/-- References leave no mark. -/
theorem recounted (hrecounted : graph.Recounted after) : after.Alike other where
  entries key := by
    have helement := hrecounted.element_eq key
    cases hafter : after.stored? key with
    | none =>
        rw [hafter, Option.map_none, eq_comm, Option.map_eq_none_iff] at helement
        exact helement ▸ halike.entries key
    | some now =>
        obtain ⟨entry, hentry, heq⟩ := hrecounted.exists_before hafter
        have hentries := halike.entries key
        rw [hentry] at hentries
        generalize other.stored? key = stored at hentries
        cases hentries with
        | both heq' => exact .both (heq'.trans heq.symm)
        | first hdeleted => exact .first ((congrArg Element.deleted heq).trans hdeleted)
  size_eq := halike.size_eq.trans hrecounted.toRelabeled.size_eq.symm
  nextId_eq := halike.nextId_eq.trans hrecounted.nextId_eq.symm

/-- Removing the same elements in both graphs leaves them alike. -/
theorem removed {doomed : Key → Element α → Bool} (hremoved : graph.Removed after doomed)
    (hremoved' : other.Removed next doomed) : after.Alike next where
  entries key := by
    rw [hremoved.stored?_eq, hremoved'.stored?_eq]
    have hentries := halike.entries key
    generalize graph.stored? key = stored, other.stored? key = stored' at hentries
    cases hentries with
    | both heq => exact .both (by simp [heq])
    | first hdeleted => exact .first (by simp [hdeleted])
    | second hdeleted => exact .second (by simp [hdeleted])
    | neither => exact .neither
  size_eq := by
    rw [hremoved'.toRelabeled.size_eq, hremoved.toRelabeled.size_eq, halike.size_eq]
  nextId_eq := by rw [hremoved'.nextId_eq, hremoved.nextId_eq, halike.nextId_eq]

theorem widened {count : Nat} (hwidened : graph.Widened after count)
    (hwidened' : other.Widened next count) : after.Alike next where
  entries key := by
    rw [hwidened.stored?_eq, hwidened'.stored?_eq]
    exact halike.entries key
  size_eq := by rw [hwidened'.size_eq, hwidened.size_eq, halike.size_eq]
  nextId_eq := by rw [hwidened'.nextId_eq, hwidened.nextId_eq, halike.nextId_eq]

end Alike

/-- The same live elements are onward from two cursors. -/
def Abreast (graph other : Graph α) (confined : Bool) (cursor cursor' : Option Key) : Prop :=
  ∀ key entry, graph.stored? key = some entry → entry.deleted = false →
    (graph.Onward confined cursor entry.place ↔ other.Onward confined cursor' entry.place)

/-- From the ends of two walks nothing is onward. -/
theorem abreast_none (graph other : Graph α) (confined : Bool) :
    graph.Abreast other confined none none := fun _ entry _ _ =>
  iff_of_false (not_onward_none graph confined entry.place)
    (not_onward_none other confined entry.place)

/-- The element at a cursor has stayed stored. -/
def Stays (graph after : Graph α) (cursor : Option Key) : Prop :=
  ∀ key, cursor = some key →
    ∃ entry now, graph.stored? key = some entry ∧ after.stored? key = some now ∧ entry.Becomes now

theorem Stays.onward_iff (hstays : graph.Stays after cursor) (place : Place) :
    after.Onward confined cursor place ↔ graph.Onward confined cursor place := by
  refine Graph.onward_iff (fun key entry hkey hentry => ?_) (fun key hkey => ?_) place
  · obtain ⟨entry', now, hentry', hnow, hbecomes⟩ := hstays key hkey
    cases hentry.symm.trans hentry'
    exact ⟨now, hnow, hbecomes⟩
  · obtain ⟨entry, _, hentry, -⟩ := hstays key hkey
    exact ⟨entry, hentry⟩

theorem Abreast.symm (habreast : graph.Abreast other confined cursor cursor')
    (halike : graph.Alike other) : other.Abreast graph confined cursor' cursor := by
  intro key entry hentry hlive
  obtain ⟨entry', hentry', heq⟩ := halike.symm.exists_live hentry hlive
  have honward := habreast key entry' hentry' ((congrArg Element.deleted heq).trans hlive)
  rw [heq] at honward
  exact honward.symm

/-- Walks stay abreast while nothing is added in front of them. -/
theorem Abreast.wanes (habreast : graph.Abreast other confined cursor cursor')
    (hwanes : graph.Wanes after) (hstays : graph.Stays after cursor)
    (hstays' : other.Stays next cursor') : after.Abreast next confined cursor cursor' := by
  intro key now hnow hlive
  obtain ⟨entry, hentry, hbecomes⟩ := hwanes.origin key now hnow
  have hsame := hbecomes.toElement_eq hlive
  have hliveEntry := (congrArg Element.deleted hsame).symm.trans hlive
  rw [hstays.onward_iff, hstays'.onward_iff, hsame]
  exact habreast key entry hentry hliveEntry

section Seek

variable {accepts : Element α → Option β} {value value' : β} {key' : Key} {entry' : Entry α}
  {cursorNext cursorNext' : Option Key} (halike : graph.Alike other)
  (habreast : graph.Abreast other confined cursor cursor')

include halike habreast

/-- Where one of two walks that are abreast finds nothing, the other one finds nothing. -/
theorem Abreast.not_found
    (hnone : ∀ key entry, graph.stored? key = some entry → entry.deleted = false →
      graph.Onward confined cursor entry.place → accepts entry.toElement = none) :
    ¬other.Found confined accepts cursor' key' entry' value' cursorNext' := by
  intro hfound
  obtain ⟨entry, hentry, heq⟩ := halike.symm.exists_live hfound.entry_eq hfound.live
  have hlive := (congrArg Element.deleted heq).trans hfound.live
  have honward : graph.Onward confined cursor entry.place := by
    rw [habreast _ entry hentry hlive, heq]
    exact hfound.onward
  have haccepted := hnone _ entry hentry hlive honward
  rw [heq, hfound.accepted] at haccepted
  cases haccepted

/-- Two walks that are abreast find the same, and are abreast behind it. -/
theorem Abreast.found
    (hfound : graph.Found confined accepts cursor key entry value cursorNext)
    (hfound' : other.Found confined accepts cursor' key' entry' value' cursorNext') :
    key' = key ∧ entry'.toElement = entry.toElement ∧ value' = value ∧
      graph.Abreast other confined cursorNext cursorNext' := by
  -- Each of the two elements is a candidate of the other walk, so neither is behind the other.
  obtain ⟨twin, htwin, heq⟩ := halike.exists_live hfound.entry_eq hfound.live
  obtain ⟨twin', htwin', heq'⟩ := halike.symm.exists_live hfound'.entry_eq hfound'.live
  have honward : other.Onward confined cursor' twin.place := by
    rw [heq, ← habreast _ entry hfound.entry_eq hfound.live]
    exact hfound.onward
  have hlive' := (congrArg Element.deleted heq').trans hfound'.live
  have honward' : graph.Onward confined cursor twin'.place := by
    rw [habreast _ twin' htwin' hlive', heq']
    exact hfound'.onward
  have hkey : key' = key := by
    have hleast := hfound.least key' twin' htwin' hlive'
      (by simp [heq', hfound'.accepted]) honward'
    have hleast' := hfound'.least key twin htwin
      ((congrArg Element.deleted heq).trans hfound.live) (by simp [heq, hfound.accepted]) honward
    rw [heq'] at hleast
    rw [heq] at hleast'
    rcases hleast with rfl | hbehind
    · rfl
    · rcases hleast' with rfl | hbehind'
      · rfl
      · exact absurd (Place.lt_trans hbehind.1 hbehind'.1) (Place.lt_irrefl _)
  subst hkey
  have hsame := halike.toElement_eq hfound.entry_eq hfound'.entry_eq
  have hvalue : some value' = some value := by
    rw [← hfound.accepted, ← hfound'.accepted, hsame]
  refine ⟨rfl, hsame, Option.some.inj hvalue, fun later found hlater hlive => ?_⟩
  obtain ⟨found', hlater', heqLater⟩ := halike.exists_live hlater hlive
  have hplace := place?_of_stored hlater
  have hplace' : other.place? later = some found.place :=
    place?_eq_some_iff.mpr ⟨found', hlater', by rw [heqLater]⟩
  constructor
  · intro honward
    have hbehind := hfound.behind _ honward
    rw [← hsame] at hbehind
    exact hfound'.onward_next later _ hplace' hbehind
  · intro honward
    have hbehind := hfound'.behind _ honward
    rw [hsame] at hbehind
    exact hfound.onward_next later _ hplace hbehind

end Seek

end Graph

end FormalLanguages
