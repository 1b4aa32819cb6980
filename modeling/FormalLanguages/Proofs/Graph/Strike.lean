/-
# A walk goes on where what it has found is removed

Removing an element takes it out of no chain.  A walk that has found the element and has its
position behind it goes on as if nothing had happened: the links are the same, and so are all the
other elements.  Neither does it matter how often elements are referred to.

Hence removing the elements of a trail one by one, each as soon as it is found, removes just those
that are found if the trail is walked to its end first.  To remove all elements of the trail in
order comes to the same, since those that are not found have been removed before.
-/

import FormalLanguages.Proofs.Graph.Change
import FormalLanguages.Proofs.Graph.Listing

namespace FormalLanguages.Graph

variable {α β : Type} {graph middle after : Graph α} {key other : Key} {keys : List Key}
  {confined : Bool} {cursor : Option Key} {accepts : Element α → Option β}

namespace Relabeled

variable (hrelabeled : graph.Relabeled after)

include hrelabeled

theorem headFrom_eq (bound : Nat) (number : Option Nat) :
    after.headFrom bound number = graph.headFrom bound number := by
  induction bound generalizing number with
  | zero => cases number <;> rfl
  | succ bound ih =>
      cases number with
      | none => rfl
      | some number => simp only [headFrom, group, hrelabeled.groups_eq, ih]

theorem findNext_eq {node : Node α} (hnode : graph.node? key = some node) (confined : Bool) :
    after.findNext key confined = graph.findNext key confined := by
  have hafter := (hrelabeled.node?_eq key).trans hnode
  simp only [findNext, get_eq_of_node? hnode, get_eq_of_node? hafter, ok_bind, group,
    hrelabeled.groups_eq, hrelabeled.headFrom_eq]

theorem trail (htrail : graph.Trail confined cursor keys) : after.Trail confined cursor keys := by
  induction htrail with
  | done => exact .done
  | @step key next rest entry hentry hnext _ ih =>
      have ⟨cell, hcell, _⟩ := stored?_eq_some_iff.mp hentry
      have hnode := node?_eq_some_iff.mpr ⟨cell, hcell, rfl⟩
      have ⟨now, hnow, _⟩ := node?_eq_some_iff.mp ((hrelabeled.node?_eq key).trans hnode)
      exact .step (stored?_eq_entry hnow)
        ((hrelabeled.findNext_eq hnode confined).trans hnext) ih

end Relabeled

/-- What seeking gives at a key depends on nothing but the element there. -/
theorem visit_congr (helement : (after.stored? other).map Entry.toElement =
      (graph.stored? other).map Entry.toElement) :
    after.visit accepts other = graph.visit accepts other := by
  simp only [visit]
  cases hentry : graph.stored? other with
  | none =>
      have hnone : after.stored? other = none := by simpa [hentry] using helement
      rw [hnone]
  | some entry =>
      obtain ⟨now, hnow, hsame⟩ : ∃ now, after.stored? other = some now ∧
          now.toElement = entry.toElement := by simpa [hentry] using helement
      rw [hnow, Option.bind_some, Option.bind_some, hsame]

/-- A graph in which one element may have been removed, and references counted anew. -/
structure Struck (graph after : Graph α) (key : Key) : Prop extends graph.Relabeled after where
  element_eq : ∀ other, other ≠ key →
    (after.stored? other).map Entry.toElement = (graph.stored? other).map Entry.toElement

theorem Recounted.struck (hrecounted : graph.Recounted after) (key : Key) :
    graph.Struck after key :=
  ⟨hrecounted.toRelabeled, fun other _ => hrecounted.element_eq other⟩

theorem Removed.struck (hremoved : graph.Removed after fun other _ => other == key) :
    graph.Struck after key where
  toRelabeled := hremoved.toRelabeled
  element_eq other hne := by
    have hsame : (other == key) = false := beq_false_of_ne hne
    rw [hremoved.stored?_eq, Option.map_map]
    simp only [hsame, Bool.or_false]
    rfl

namespace Struck

theorem trans (hfirst : graph.Struck middle key) (hsecond : middle.Struck after key) :
    graph.Struck after key :=
  ⟨hfirst.toRelabeled.trans hsecond.toRelabeled, fun other hne =>
    (hsecond.element_eq other hne).trans (hfirst.element_eq other hne)⟩

/-- The other elements stay live. -/
theorem live (hstruck : graph.Struck after key) (hne : other ≠ key)
    (hlive : ∃ entry, graph.stored? other = some entry ∧ entry.deleted = false) :
    ∃ entry, after.stored? other = some entry ∧ entry.deleted = false := by
  have ⟨entry, hentry, hdeleted⟩ := hlive
  have helement := hstruck.element_eq other hne
  rw [hentry, Option.map_some, Option.map_eq_some_iff] at helement
  have ⟨now, hnow, hsame⟩ := helement
  exact ⟨now, hnow, (congrArg Element.deleted hsame).trans hdeleted⟩

theorem visit_eq (hstruck : graph.Struck after key) (hne : other ≠ key) :
    after.visit accepts other = graph.visit accepts other :=
  visit_congr (hstruck.element_eq other hne)

theorem visits_eq (hstruck : graph.Struck after key) (hkey : key ∉ keys) :
    keys.filterMap (after.visit accepts) = keys.filterMap (graph.visit accepts) :=
  List.filterMap_congr fun _ hother => hstruck.visit_eq fun heq => hkey (heq ▸ hother)

end Struck

/-- Seeking again and again from a cursor on finds the listed elements, each with what accepting it
gives, along a trail that meets no element twice. -/
def Finds (graph : Graph α) (confined : Bool) (accepts : Element α → Option β)
    (cursor : Option Key) (found : List (Key × β)) : Prop :=
  ∃ keys, graph.Trail confined cursor keys ∧ keys.Nodup ∧
    keys.length ≤ graph.store.slots.size ∧ keys.filterMap (graph.visit accepts) = found

theorem Ahead.finds {region : Place → Prop} (hahead : graph.Ahead confined region cursor keys)
    (accepts : Element α → Option β) :
    graph.Finds confined accepts cursor (keys.filterMap (graph.visit accepts)) :=
  ⟨keys, hahead.trail, hahead.nodup, hahead.length_le, rfl⟩

namespace Finds

variable {found : List (Key × β)} {value : β}

/-- There is not more to find than there are slots. -/
theorem length_le (hfinds : graph.Finds confined accepts cursor found) :
    found.length ≤ graph.store.slots.size := by
  have ⟨keys, _, _, hlength, hvisits⟩ := hfinds
  exact hvisits ▸ Nat.le_trans (List.length_filterMap_le _ keys) hlength

/-- No element is found twice. -/
theorem nodup (hfinds : graph.Finds confined accepts cursor found) :
    (found.map Prod.fst).Nodup := by
  have ⟨keys, _, hnodup, _, hvisits⟩ := hfinds
  rw [← hvisits, List.map_filterMap]
  apply hnodup.filterMap
  intro first second key hfirst hsecond
  have ⟨_, hvisitFirst, hkeyFirst⟩ := Option.map_eq_some_iff.mp hfirst
  have ⟨_, hvisitSecond, hkeySecond⟩ := Option.map_eq_some_iff.mp hsecond
  rw [← (visit_eq_some_iff.mp hvisitFirst).1, ← (visit_eq_some_iff.mp hvisitSecond).1, hkeyFirst,
    hkeySecond]

/-- What is found is live. -/
theorem live (hfinds : graph.Finds confined accepts cursor found)
    (hkey : key ∈ found.map Prod.fst) :
    ∃ entry, graph.stored? key = some entry ∧ entry.deleted = false := by
  have ⟨keys, _, _, _, hvisits⟩ := hfinds
  have ⟨_, hmem, hsame⟩ := List.mem_map.mp hkey
  have ⟨_, _, hvisit⟩ := List.mem_filterMap.mp (hvisits ▸ hmem)
  have ⟨heq, entry, hentry, hlive, _⟩ := visit_eq_some_iff.mp hvisit
  exact ⟨entry, heq.symm.trans hsame ▸ hentry, hlive⟩

theorem recounted (hfinds : graph.Finds confined accepts cursor found)
    (hrecounted : graph.Recounted after) : after.Finds confined accepts cursor found := by
  have ⟨keys, htrail, hnodup, hlength, hvisits⟩ := hfinds
  refine ⟨keys, hrecounted.toRelabeled.trail htrail, hnodup, hrecounted.slots_eq ▸ hlength, ?_⟩
  rw [← hvisits]
  exact List.filterMap_congr fun other _ => visit_congr (hrecounted.element_eq other)

/-- Where nothing is to be found, a trail has no first element to be found. -/
theorem first_nil (hfinds : graph.Finds confined accepts cursor []) :
    ∃ keys, graph.Trail confined cursor keys ∧ keys.length ≤ graph.store.slots.size ∧
      keys.findSome? (graph.visit accepts) = none := by
  have ⟨keys, htrail, _, hlength, hnone⟩ := hfinds
  rcases htrail.first_cases accepts with
    ⟨hfirst, -⟩ | ⟨key, value, next, rest, -, -, -, -, -, hsome⟩
  · exact ⟨keys, htrail, hlength, hfirst⟩
  · cases hnone.symm.trans hsome

/-- The first element to be found on a trail is live, and from the cursor behind it the others are
found, even if it is removed. -/
theorem first_cons (hfinds : graph.Finds confined accepts cursor ((key, value) :: found)) :
    ∃ keys entry next, graph.Trail confined cursor keys ∧
      keys.length ≤ graph.store.slots.size ∧
      keys.findSome? (graph.visit accepts) = some (key, value) ∧
      graph.stored? key = some entry ∧ entry.deleted = false ∧
      graph.findNext key confined = .ok next ∧
      ∀ after, graph.Struck after key → after.Finds confined accepts next found := by
  have ⟨keys, htrail, hnodup, hlength, hvisits⟩ := hfinds
  rcases htrail.first_cases accepts with
    ⟨-, hnone⟩ | ⟨key', value', next, rest, hfirst, hvisit, hnext, hrest, hsuffix, hsome⟩
  · cases hvisits.symm.trans hnone
  · cases hvisits.symm.trans hsome
    have ⟨_, entry, hentry, hlive, _⟩ := visit_eq_some_iff.mp hvisit
    have ⟨hkey, hnodupRest⟩ := List.nodup_cons.mp (hsuffix.sublist.nodup hnodup)
    have hshorter : rest.length < keys.length := hsuffix.length_le
    refine ⟨keys, entry, next, htrail, hlength, hfirst, hentry, hlive, hnext,
      fun after hstruck => ?_⟩
    refine ⟨rest, hstruck.toRelabeled.trail hrest, hnodupRest, ?_, hstruck.visits_eq hkey⟩
    rw [hstruck.slots_eq]
    exact Nat.le_of_lt (Nat.lt_of_lt_of_le hshorter hlength)

end Finds

/-- To remove an element that has been removed before changes nothing. -/
theorem remove_deleted {entry : Entry α} (hentry : graph.stored? key = some entry)
    (hdeleted : entry.deleted = true) : graph.remove key = .ok (false, graph) := by
  obtain ⟨cell, hcell, rfl⟩ := stored?_eq_some_iff.mp hentry
  have hcellDeleted : cell.deleted = true := hdeleted
  simp only [remove, Store.tombstone_eq hcell, hcellDeleted, ↓reduceIte, ok_bind, pure_eq_ok]

/-- To remove all elements of a trail is to remove those that are found on it, if each that is live
is accepted, and it counts them. -/
theorem removeAll_found (hsound : graph.Sound) (hnodup : keys.Nodup)
    (haccepts : ∀ key ∈ keys, ∃ entry, graph.stored? key = some entry ∧
      (entry.deleted = false → accepts entry.toElement ≠ none)) :
    ∃ after, graph.removeAll keys = .ok ((keys.filterMap (graph.visit accepts)).length, after) ∧
      graph.removeAll ((keys.filterMap (graph.visit accepts)).map Prod.fst) =
        .ok ((keys.filterMap (graph.visit accepts)).length, after) := by
  induction keys generalizing graph with
  | nil => exact ⟨graph, rfl, rfl⟩
  | cons key rest ih =>
      obtain ⟨hkey, hnodupRest⟩ := List.nodup_cons.mp hnodup
      obtain ⟨entry, hentry, haccepted⟩ := haccepts key List.mem_cons_self
      cases hdeleted : entry.deleted with
      | true =>
          have hvisit : graph.visit accepts key = none := by simp [visit, hentry, hdeleted]
          obtain ⟨after, hall, hfound⟩ := ih hsound hnodupRest fun other hother =>
            haccepts other (List.mem_cons_of_mem key hother)
          refine ⟨after, ?_, ?_⟩
          · simp [removeAll, remove_deleted hentry hdeleted, hvisit, hall]
          · rwa [List.filterMap_cons_none hvisit]
      | false =>
          obtain ⟨value, hvalue⟩ := Option.ne_none_iff_exists'.mp (haccepted hdeleted)
          have hvisit : graph.visit accepts key = some (key, value) := by
            simp [visit, hentry, hdeleted, hvalue]
          obtain ⟨middle, hremove, hmiddle, hremoved⟩ := remove_removed hsound hentry
          obtain ⟨after, hall, hfound⟩ := ih hmiddle hnodupRest fun other hother => by
            have hne : (other == key) = false := beq_false_of_ne fun heq => hkey (heq ▸ hother)
            obtain ⟨found, hstored, hlive⟩ := haccepts other (List.mem_cons_of_mem key hother)
            refine ⟨found, ?_, hlive⟩
            rw [hremoved.stored?_eq, hstored]
            simp [hne]
          rw [hremoved.struck.visits_eq hkey] at hall hfound
          refine ⟨after, ?_, ?_⟩
          · simp [removeAll, hremove, hdeleted, hvisit, hall]
          · simp [removeAll, hremove, hdeleted, hvisit, hfound]

section Group

variable {number : Nat} (hsound : graph.Sound) (hnumber : number < graph.groups.size)

include hsound hnumber

/-- The elements of a group to be found from its head on. -/
theorem finds_chainKeys (accepts : Element α → Option β) :
    graph.Finds true accepts (graph.head? number)
      ((graph.chainKeys number).filterMap (graph.visit accepts)) :=
  (ahead_chainKeys hsound hnumber).finds accepts

/-- To remove a group is to remove the elements to be found in it. -/
theorem removeGroup_found
    (haccepts : ∀ element : Element α, element.group = number → accepts element ≠ none) :
    let found := (graph.chainKeys number).filterMap (graph.visit accepts)
    ∃ after, graph.removeGroup number = .ok (found.length, after) ∧
      graph.removeAll (found.map Prod.fst) = .ok (found.length, after) := by
  intro found
  have hahead := ahead_chainKeys hsound hnumber
  have haccepted : ∀ key ∈ graph.chainKeys number, ∃ entry, graph.stored? key = some entry ∧
      (entry.deleted = false → accepts entry.toElement ≠ none) := fun key hkey => by
    have ⟨place, hplace, hgroup⟩ := (hahead.mem_iff key).mp hkey
    have ⟨entry, hentry, hsame⟩ := place?_eq_some_iff.mp hplace
    exact ⟨entry, hentry, fun _ =>
      haccepts entry.toElement ((congrArg Place.group hsame).trans hgroup)⟩
  have ⟨after, hall, hfound⟩ := removeAll_found hsound hahead.nodup haccepted
  refine ⟨after, ?_, hfound⟩
  simp only [removeGroup_eq, (hsound.chain_chainKeys hnumber).chain_eq hnumber, ok_bind, hall,
    found]

/-- To remove a group without live elements changes nothing. -/
theorem removeGroup_deleted
    (hdeleted : ∀ key entry, graph.stored? key = some entry → entry.group = number →
      entry.deleted = true) : graph.removeGroup number = .ok (0, graph) := by
  have haccepts (element : Element α) (_ : element.group = number) : some () ≠ none :=
    Option.some_ne_none ()
  have ⟨after, hremove, hall⟩ := removeGroup_found hsound hnumber haccepts
  have hnone : (graph.chainKeys number).filterMap (graph.visit fun _ => some ()) = [] := by
    refine List.filterMap_eq_nil_iff.mpr fun key hkey => ?_
    have ⟨id, hplace⟩ := ((hsound.chain_chainKeys hnumber).mem_iff key).mp hkey
    have ⟨entry, hentry, hsame⟩ := place?_eq_some_iff.mp hplace
    simp [visit, hentry, hdeleted key entry hentry (congrArg Place.group hsame)]
  rw [hnone] at hremove hall
  cases hall
  exact hremove

end Group

/-- What is not removed stays the same, the references to it and its link included. -/
theorem Removed.cell_eq {doomed : Key → Element α → Bool} (hremoved : graph.Removed after doomed)
    (hspared : ∀ element, graph.element key = .ok element → doomed key element = false) :
    after.store.cell key = graph.store.cell key := by
  have hstored := hremoved.stored?_eq key
  have hnode := hremoved.node?_eq key
  cases hcell : graph.store.cell? key with
  | none =>
      have hafter : after.store.cell? key = none := by simpa [stored?, hcell] using hstored
      rw [Store.cell_eq_error hcell, Store.cell_eq_error hafter, hremoved.slots_eq]
  | some cell =>
      have hentry := stored?_eq_entry hcell
      have hspare := hspared _ (element_of_stored hentry)
      obtain ⟨now, hnow, hsame⟩ := node?_eq_some_iff.mp
        (hnode.trans (node?_eq_some_iff.mpr ⟨cell, hcell, rfl⟩))
      have hafter := stored?_eq_entry hnow
      rw [hentry, hafter, Option.map_some, hspare, Bool.or_false, Option.some.injEq] at hstored
      have hcellSame : now = cell := Cell.eq_of_entry_eq hsame hstored
      rw [Store.cell_eq_ok_iff.mpr hcell, Store.cell_eq_ok_iff.mpr hnow, hcellSame]

end FormalLanguages.Graph
