/-
# What is referred to outlives every change

A change of a graph may add elements, remove them and free them, but to what was stored before it
does nothing else: an element keeps its number, its group and its data, and once it is removed it
stays removed.  An element that something refers to stays stored.  A new element has a number that
no element had before, and nothing refers to it yet.

Taking and giving back references changes nothing but the counts.  What is left of a graph after
changes of either kind is that it has aged: whatever it stores under an old number is what it
stored before.
-/

import FormalLanguages.Proofs.Graph.Append
import FormalLanguages.Proofs.Graph.Reclaim

namespace FormalLanguages

/-- What an entry may become: the same element, which may have been removed. -/
structure Entry.Becomes {α : Type} (entry now : Entry α) : Prop where
  id_eq : now.id = entry.id
  group_eq : now.group = entry.group
  data_eq : now.data = entry.data
  deleted : entry.deleted = true → now.deleted = true

namespace Entry.Becomes

variable {α : Type} {entry middle now : Entry α}

theorem refl (entry : Entry α) : entry.Becomes entry := ⟨rfl, rfl, rfl, id⟩

theorem trans (hfirst : entry.Becomes middle) (hsecond : middle.Becomes now) :
    entry.Becomes now where
  id_eq := hsecond.id_eq.trans hfirst.id_eq
  group_eq := hsecond.group_eq.trans hfirst.group_eq
  data_eq := hsecond.data_eq.trans hfirst.data_eq
  deleted := hsecond.deleted ∘ hfirst.deleted

theorem of_toElement_eq (heq : now.toElement = entry.toElement) : entry.Becomes now where
  id_eq := congrArg Element.id heq
  group_eq := congrArg Element.group heq
  data_eq := congrArg Element.data heq
  deleted hdeleted := (congrArg Element.deleted heq).trans hdeleted

variable (hbecomes : entry.Becomes now)

include hbecomes

theorem place_eq : now.place = entry.place := by
  rw [Element.place, Element.place, hbecomes.id_eq, hbecomes.group_eq]

/-- An element that is still live is read as before. -/
theorem toElement_eq (hlive : now.deleted = false) : now.toElement = entry.toElement := by
  obtain ⟨⟨id, group, data, deleted⟩, references⟩ := entry
  obtain ⟨⟨id', group', data', deleted'⟩, references'⟩ := now
  obtain ⟨hid, hgroup, hdata, hdeleted⟩ := hbecomes
  simp_all

end Entry.Becomes

namespace Graph

variable {α : Type} {graph middle after : Graph α}

/-- A graph that stores the elements it stored before, some of which may have been removed. -/
structure Persists (graph after : Graph α) : Prop where
  kept : ∀ key entry, graph.stored? key = some entry →
    ∃ now, after.stored? key = some now ∧ entry.Becomes now
  origin : ∀ key now, after.stored? key = some now →
    ∃ entry, graph.stored? key = some entry ∧ entry.Becomes now

/-- A graph after changes that leave the references as they are. -/
structure Evolves (graph after : Graph α) : Prop where
  kept : ∀ key entry, graph.stored? key = some entry → entry.references ≠ 0 →
    ∃ now, after.stored? key = some now ∧ entry.Becomes now ∧ now.references = entry.references
  origin : ∀ key now, after.stored? key = some now →
    (∃ entry, graph.stored? key = some entry ∧ entry.Becomes now ∧
      now.references = entry.references) ∨
    (now.references = 0 ∧ graph.nextId.value ≤ now.id ∧
      ∀ entry, graph.stored? key = some entry → entry.references = 0)
  nextId_le : graph.nextId.value ≤ after.nextId.value

/-- A graph after references were taken and given back. -/
structure Recounted (graph after : Graph α) : Prop extends graph.Relabeled after where
  element_eq : ∀ key,
    (after.stored? key).map Entry.toElement = (graph.stored? key).map Entry.toElement

/-- A graph after changes of any kind. -/
structure Ages (graph after : Graph α) : Prop where
  held : ∀ key entry, graph.stored? key = some entry → entry.references ≠ 0 →
    ∃ now, after.stored? key = some now ∧ entry.Becomes now
  origin : ∀ key now, after.stored? key = some now → now.id < graph.nextId.value →
    ∃ entry, graph.stored? key = some entry ∧ entry.Becomes now
  nextId_le : graph.nextId.value ≤ after.nextId.value

theorem Persists.ages (hpersists : graph.Persists after)
    (hnextId : graph.nextId.value ≤ after.nextId.value) : graph.Ages after where
  held key entry hentry _ := hpersists.kept key entry hentry
  origin key now hnow _ := hpersists.origin key now hnow
  nextId_le := hnextId

namespace Evolves

theorem refl (graph : Graph α) : graph.Evolves graph where
  kept _ entry hentry _ := ⟨entry, hentry, .refl entry, rfl⟩
  origin _ now hnow := .inl ⟨now, hnow, .refl now, rfl⟩
  nextId_le := Nat.le_refl _

theorem ages (hevolves : graph.Evolves after) : graph.Ages after where
  held key entry hentry hheld := by
    obtain ⟨now, hnow, hbecomes, -⟩ := hevolves.kept key entry hentry hheld
    exact ⟨now, hnow, hbecomes⟩
  origin key now hnow hold := by
    rcases hevolves.origin key now hnow with ⟨entry, hentry, hbecomes, -⟩ | ⟨-, hid, -⟩
    · exact ⟨entry, hentry, hbecomes⟩
    · exact absurd hold (Nat.not_lt.mpr hid)
  nextId_le := hevolves.nextId_le

end Evolves

/-- A graph in which the elements that a condition names were removed. -/
structure Removed (graph after : Graph α) (doomed : Key → Element α → Bool) : Prop
    extends graph.Relabeled after where
  stored?_eq : ∀ key, after.stored? key = (graph.stored? key).map fun entry =>
    { entry with deleted := entry.deleted || doomed key entry.toElement }

namespace Removed

variable {doomed : Key → Element α → Bool} (hremoved : graph.Removed after doomed)

include hremoved

/-- Where elements are removed, every entry is left as it was or turned into a tombstone. -/
private theorem entries (key : Key) :
    (∀ entry, graph.stored? key = some entry →
      ∃ now, after.stored? key = some now ∧ entry.Becomes now ∧
        now.references = entry.references) ∧
    ∀ now, after.stored? key = some now →
      ∃ entry, graph.stored? key = some entry ∧ entry.Becomes now ∧
        now.references = entry.references := by
  have hmark (entry : Entry α) :
      entry.Becomes { entry with deleted := entry.deleted || doomed key entry.toElement } :=
    ⟨rfl, rfl, rfl, fun hdeleted => by simp [hdeleted]⟩
  refine ⟨fun entry hkey => ⟨_, by rw [hremoved.stored?_eq, hkey, Option.map_some], hmark entry,
    rfl⟩, fun now hnow => ?_⟩
  rw [hremoved.stored?_eq, Option.map_eq_some_iff] at hnow
  obtain ⟨entry, hkey, rfl⟩ := hnow
  exact ⟨entry, hkey, hmark entry, rfl⟩

/-- Removing elements keeps all that is stored. -/
theorem persists : graph.Persists after where
  kept key entry hkey := by
    obtain ⟨now, hnow, hbecomes, -⟩ := (hremoved.entries key).1 entry hkey
    exact ⟨now, hnow, hbecomes⟩
  origin key now hnow := by
    obtain ⟨entry, hkey, hbecomes, -⟩ := (hremoved.entries key).2 now hnow
    exact ⟨entry, hkey, hbecomes⟩

theorem evolves : graph.Evolves after where
  kept key entry hkey _ := (hremoved.entries key).1 entry hkey
  origin key now hnow := .inl ((hremoved.entries key).2 now hnow)
  nextId_le := Nat.le_of_eq (congrArg Index.value hremoved.nextId_eq.symm)

end Removed

/-- Removing an element tells whether it was live. -/
theorem remove_removed {key : Key} {entry : Entry α} (hsound : graph.Sound)
    (hentry : graph.stored? key = some entry) :
    ∃ after, graph.remove key = .ok (!entry.deleted, after) ∧ after.Sound ∧
      graph.Removed after fun other _ => other == key := by
  obtain ⟨after, hremove, hafter, hrelabeled, -, hentries⟩ := remove_spec hsound hentry
  refine ⟨after, hremove, hafter, hrelabeled, fun other => ?_⟩
  rw [hentries]
  by_cases hother : other = key
  · simp [hother, hentry]
  · have hsame : (other == key) = false := beq_false_of_ne hother
    simp [hother, hsame]

/-- Removing the elements of a group counts those that were live. -/
theorem removeGroup_removed {number : Nat} (hsound : graph.Sound)
    (hnumber : number < graph.groups.size) :
    ∃ count after, graph.removeGroup number = .ok (count, after) ∧ after.Sound ∧
      after.size + count = graph.size ∧
      graph.Removed after fun _ element => element.group == number := by
  obtain ⟨keys, hchain⟩ := hsound.chained number hnumber
  have hstored (key : Key) (hkey : key ∈ keys) : ∃ entry, graph.stored? key = some entry := by
    obtain ⟨cell, hcell⟩ := hchain.stored_of_mem hkey
    exact ⟨_, stored?_eq_entry hcell⟩
  obtain ⟨count, after, hremove, hafter, hrelabeled, hsize, hentries⟩ :=
    removeAll_spec hsound hstored
  refine ⟨count, after, by simp [removeGroup_eq, hchain.chain_eq hnumber, hremove], hafter, hsize,
    hrelabeled, fun key => ?_⟩
  rw [hentries]
  refine Option.map_congr fun entry hentry => ?_
  have hmem : key ∈ keys ↔ entry.group = number := by
    rw [hchain.mem_iff, place?, hentry]
    simp [Element.place]
  by_cases hgroup : entry.group = number
  · simp [hmem, hgroup]
  · have hother : (entry.group == number) = false := beq_false_of_ne hgroup
    simp [hmem, hgroup, hother]

/-- A graph to which groups without elements were added. -/
structure Widened (graph after : Graph α) (count : Nat) : Prop where
  stored?_eq : ∀ key, after.stored? key = graph.stored? key
  size_eq : after.groups.size = graph.groups.size + count
  nextId_eq : after.nextId = graph.nextId
  slots_eq : after.store.slots.size = graph.store.slots.size

theorem Extended.widened (hextended : graph.Extended after) : graph.Widened after 1 :=
  ⟨hextended.stored?_eq, hextended.size_eq, hextended.nextId_eq,
    congrArg (fun store : Store (Node α) => store.slots.size) hextended.store_eq⟩

namespace Widened

variable {count : Nat}

theorem refl (graph : Graph α) : graph.Widened graph 0 := ⟨fun _ => rfl, rfl, rfl, rfl⟩

theorem trans {more : Nat} (hfirst : graph.Widened middle count)
    (hsecond : middle.Widened after more) : graph.Widened after (count + more) where
  stored?_eq key := (hsecond.stored?_eq key).trans (hfirst.stored?_eq key)
  size_eq := by rw [hsecond.size_eq, hfirst.size_eq, Nat.add_assoc]
  nextId_eq := hsecond.nextId_eq.trans hfirst.nextId_eq
  slots_eq := hsecond.slots_eq.trans hfirst.slots_eq

variable (hwidened : graph.Widened after count)

include hwidened

theorem persists : graph.Persists after where
  kept key entry hentry := ⟨entry, (hwidened.stored?_eq key).trans hentry, .refl entry⟩
  origin key now hnow := ⟨now, hwidened.stored?_eq key ▸ hnow, .refl now⟩

theorem evolves : graph.Evolves after where
  kept key entry hentry _ := ⟨entry, (hwidened.stored?_eq key).trans hentry, .refl entry, rfl⟩
  origin key now hnow := .inl ⟨now, hwidened.stored?_eq key ▸ hnow, .refl now, rfl⟩
  nextId_le := Nat.le_of_eq (congrArg Index.value hwidened.nextId_eq.symm)

end Widened

theorem Appended.evolves {number : Nat} {data : α} {key : Key}
    (happended : graph.Appended number data key after) : graph.Evolves after where
  kept other entry hentry _ := by
    have hne : other ≠ key := fun heq => by simp [heq, happended.stored?_key] at hentry
    exact ⟨entry, by rw [happended.stored?_eq, if_neg hne, hentry], .refl entry, rfl⟩
  origin other now hnow := by
    rw [happended.stored?_eq] at hnow
    split at hnow
    · next heq =>
        cases hnow
        exact .inr ⟨rfl, Nat.le_refl _, by simp [heq, happended.stored?_key]⟩
    · exact .inl ⟨now, hnow, .refl now, rfl⟩
  nextId_le := by
    rw [happended.nextId_value]
    exact Nat.le_succ _

/-- Reclaiming frees nothing that is referred to. -/
theorem Swept.evolves (hswept : graph.Swept graph.store.reclaimable after) :
    graph.Evolves after where
  kept key entry hentry hheld := by
    have hkey : key ∉ graph.store.reclaimable := fun hmem => by
      obtain ⟨dead, hdead, -, hzero⟩ := mem_reclaimable_iff.mp hmem
      cases hentry.symm.trans hdead
      exact hheld hzero
    exact ⟨entry, by rw [hswept.stored?_eq, if_neg hkey, hentry], .refl entry, rfl⟩
  origin key now hnow := by
    rw [hswept.stored?_eq] at hnow
    split at hnow
    · cases hnow
    · exact .inl ⟨now, hnow, .refl now, rfl⟩
  nextId_le := Nat.le_of_eq (congrArg Index.value hswept.nextId_eq.symm)

namespace Recounted

theorem refl (graph : Graph α) : graph.Recounted graph := ⟨.refl graph, fun _ => rfl⟩

theorem trans (hfirst : graph.Recounted middle) (hsecond : middle.Recounted after) :
    graph.Recounted after :=
  ⟨hfirst.toRelabeled.trans hsecond.toRelabeled, fun key =>
    (hsecond.element_eq key).trans (hfirst.element_eq key)⟩

variable (hrecounted : graph.Recounted after)

include hrecounted

theorem exists_entry {key : Key} {entry : Entry α} (hentry : graph.stored? key = some entry) :
    ∃ now, after.stored? key = some now ∧ now.toElement = entry.toElement := by
  have heq := hrecounted.element_eq key
  rw [hentry, Option.map_some, Option.map_eq_some_iff] at heq
  exact heq

theorem exists_before {key : Key} {now : Entry α} (hnow : after.stored? key = some now) :
    ∃ entry, graph.stored? key = some entry ∧ now.toElement = entry.toElement := by
  have heq := hrecounted.element_eq key
  rw [hnow, Option.map_some, eq_comm, Option.map_eq_some_iff] at heq
  obtain ⟨entry, hentry, heq⟩ := heq
  exact ⟨entry, hentry, heq.symm⟩

theorem persists : graph.Persists after where
  kept key entry hentry := by
    obtain ⟨now, hnow, heq⟩ := hrecounted.exists_entry hentry
    exact ⟨now, hnow, .of_toElement_eq heq⟩
  origin key now hnow := by
    obtain ⟨entry, hentry, heq⟩ := hrecounted.exists_before hnow
    exact ⟨entry, hentry, .of_toElement_eq heq⟩

end Recounted

/-- Changing the number of references to one element changes nothing else. -/
theorem recount_spec {key : Key} {cell : Cell (Node α)} (hsound : graph.Sound)
    (hcell : graph.store.cell? key = some cell) (references : Nat) :
    let after := { graph with store := graph.store.put key { cell with references } }
    after.Sound ∧ graph.Recounted after ∧
      ∀ other, after.stored? other =
        if other = key then some { cell.entry with references } else graph.stored? other := by
  have hput := Store.cell?_put hcell { cell with references }
  have hrelabeled := relabeled_of_cell? hput hcell rfl (Store.size_put _ _ _)
  have hentry := stored?_of_cell? hput
  refine ⟨hrelabeled.sound hsound (hsound.tidy.put hcell rfl), ⟨hrelabeled, fun other => ?_⟩,
    hentry⟩
  rw [hentry]
  split
  · next heq =>
      subst heq
      simp [stored?, hcell, Cell.entry]
  · rfl

theorem Recounted.ages (hrecounted : graph.Recounted after) : graph.Ages after :=
  hrecounted.persists.ages (Nat.le_of_eq (congrArg Index.value hrecounted.nextId_eq.symm))

theorem Ages.recount (hages : graph.Ages middle) (hrecounted : middle.Recounted after) :
    graph.Ages after where
  held key entry hentry hheld := by
    obtain ⟨found, hfound, hbecomes⟩ := hages.held key entry hentry hheld
    obtain ⟨now, hnow, heq⟩ := hrecounted.exists_entry hfound
    exact ⟨now, hnow, hbecomes.trans (.of_toElement_eq heq)⟩
  origin key now hnow hold := by
    obtain ⟨found, hfound, heq⟩ := hrecounted.exists_before hnow
    have hid : found.id = now.id := (congrArg Element.id heq).symm
    obtain ⟨entry, hentry, hbecomes⟩ := hages.origin key found hfound (hid ▸ hold)
    exact ⟨entry, hentry, hbecomes.trans (.of_toElement_eq heq)⟩
  nextId_le := hrecounted.nextId_eq ▸ hages.nextId_le

end Graph

end FormalLanguages
