/-
# Reclaiming takes elements out of their chains one by one

An element that has been removed and that nothing refers to is freed in two steps: what followed it
follows its predecessor instead, and its slot is emptied.  The predecessor may be a tombstone
itself, and may be freed next.  Each element is freed from a graph that is sound again, so the order
in which elements are freed does not matter, and in the end just the freed ones are missing.
-/

import FormalLanguages.Proofs.Graph

namespace FormalLanguages.Graph

variable {α : Type} {graph after : Graph α} {number : Nat} {key : Key} {node : Node α}
  {pre post : List Key}

/-- A graph after an element was taken out of its chain and its slot.  The element was followed by
what follows its predecessor now, and had no predecessor if it was the first of its group. -/
structure Freed (graph : Graph α) (number : Nat) (key : Key) (before next : Option Key)
    (after : Graph α) : Prop where
  cell?_eq : ∀ other, after.store.cell? other =
    if other = key then none
    else if before = some other then (graph.store.cell? other).map (·.follow next)
    else graph.store.cell? other
  head?_eq : ∀ other, after.head? other =
    if before = none ∧ other = number then next else graph.head? other
  last?_eq : ∀ other, after.last? other =
    if other = number ∧ graph.last? number = some key then before else graph.last? other
  outline_eq : after.outline = graph.outline
  lastGroup_eq : after.lastGroup = graph.lastGroup
  nextId_eq : after.nextId = graph.nextId
  slots_eq : after.store.slots.size = graph.store.slots.size
  tidy : after.store.Tidy

/-- An element that has been removed and that nothing refers to. -/
def Dead (graph : Graph α) (key : Key) : Prop :=
  ∃ entry, graph.stored? key = some entry ∧ entry.deleted = true ∧ entry.references = 0

/-- The predecessor of an element is the last one in front of it. -/
private theorem takeWhile_ne_eq (hnodup : (pre ++ key :: post).Nodup) :
    (pre ++ key :: post).takeWhile (· ≠ key) = pre := by
  have hne (other : Key) (hother : other ∈ pre) : other ≠ key := fun heq =>
    (List.nodup_append.mp hnodup).2.2 other hother key List.mem_cons_self heq
  rw [List.takeWhile_append_of_pos fun other hother => by simpa using hne other hother]
  simp

/-- Take an element out of its chain and its slot. -/
def free (graph : Graph α) (key : Key) : Except Fault (Node α × Graph α) := do
  let graph ← graph.unlink key
  let (node, store) ← graph.store.reclaim key
  return (node, { graph with store })

/-- Freeing a dead element succeeds. -/
theorem free_spec (hsound : graph.Sound) {cell : Cell (Node α)}
    (hcell : graph.store.cell? key = some cell) (hdeleted : cell.deleted = true)
    (hfree : cell.references = 0) (hnumber : cell.content.group < graph.groups.size)
    (hchain : graph.Chain cell.content.group (pre ++ key :: post)) :
    ∃ after, graph.free key = .ok (cell.content, after) ∧
      graph.Freed cell.content.group key pre.getLast? cell.content.next after := by
  have hnodup := hchain.nodup
  have hkey : key ∉ pre := fun hmem =>
    (List.nodup_append.mp hnodup).2.2 key hmem key List.mem_cons_self rfl
  have hstoredBefore (before : Key) (hbefore : pre.getLast? = some before) :
      ∃ cell, graph.store.cell? before = some cell :=
    hchain.stored_of_mem (List.mem_append_left _ (List.mem_of_getLast? hbefore))
  obtain ⟨linked, hlinkedEq, hlinked⟩ :=
    setSuccessor_spec hnumber hstoredBefore cell.content.next
  have hsize : linked.groups.size = graph.groups.size := by
    rw [← length_outline linked, hlinked.outline_eq, length_outline]
  obtain ⟨ended, hendedEq, hended⟩ := setLast_spec (hsize ▸ hnumber) pre.getLast?
  have hlast : graph.groups[cell.content.group].last = graph.last? cell.content.group := by
    simp [last?, hnumber]
  have hbeforeNe : pre.getLast? ≠ some key := fun heq => hkey (List.mem_of_getLast? heq)
  -- The element itself is not touched by the relinking, so its slot can be emptied afterwards.
  have hcellLinked : linked.store.cell? key = some cell := by
    rw [hlinked.cell?_eq, if_neg hbeforeNe, hcell]
  have hunlink : graph.unlink key =
      if graph.last? cell.content.group = some key then .ok ended else .ok linked := by
    simp only [unlink, Store.get_eq hcell, hchain.chain_eq hnumber, group_eq hnumber, ok_bind,
      takeWhile_ne_eq hnodup, hlinkedEq, hlast, hendedEq, pure_eq_ok]
  have hreclaim := Store.reclaim_eq hcellLinked hdeleted hfree
  have hcellAfter (other : Key) : (linked.store.vacate key).cell? other =
      if other = key then none
      else if pre.getLast? = some other then
        (graph.store.cell? other).map (·.follow cell.content.next)
      else graph.store.cell? other := by
    rw [Store.cell?_vacate hcellLinked, hlinked.cell?_eq]
  have htidy := (hlinked.tidy hsound.tidy).vacate hcellLinked hdeleted
  have hslots := (Store.size_vacate linked.store key).trans hlinked.slots_eq
  by_cases hend : graph.last? cell.content.group = some key
  · refine ⟨{ ended with store := linked.store.vacate key }, ?_, hcellAfter, ?_,
      ?_, hended.outline_eq.trans hlinked.outline_eq,
      hended.lastGroup_eq.trans hlinked.lastGroup_eq,
      hended.nextId_eq.trans hlinked.nextId_eq, hslots, htidy⟩
    · simp [free, hunlink, hend, hended.store_eq, hreclaim]
    · intro other
      exact (hended.head?_eq other).trans (hlinked.head?_eq other)
    · intro other
      refine (hended.last?_eq other).trans ?_
      simp [hlinked.last?_eq, hend]
  · refine ⟨{ linked with store := linked.store.vacate key }, ?_, hcellAfter, hlinked.head?_eq,
      fun other => ?_, hlinked.outline_eq, hlinked.lastGroup_eq, hlinked.nextId_eq, hslots,
      htidy⟩
    · simp [free, hunlink, hend, hreclaim]
    · rw [if_neg fun hcond => hend hcond.2]
      exact hlinked.last?_eq other

namespace Freed

variable {before next : Option Key} (hfreed : graph.Freed number key before next after)

include hfreed

theorem size_eq : after.groups.size = graph.groups.size := by
  rw [← length_outline after, hfreed.outline_eq, length_outline]

/-- Nothing that stays stored changes apart from its link. -/
theorem stored?_eq (other : Key) :
    after.stored? other = if other = key then none else graph.stored? other := by
  simp only [stored?, hfreed.cell?_eq]
  split
  · rfl
  · split
    · cases graph.store.cell? other <;> rfl
    · rfl

theorem place?_eq (other : Key) :
    after.place? other = if other = key then none else graph.place? other := by
  rw [place?, hfreed.stored?_eq]
  split <;> rfl

end Freed

/-- The chain of the group closes over the freed element. -/
theorem Freed.chain (hfreed : graph.Freed number key pre.getLast? node.next after)
    (hnode : graph.node? key = some node) (hchain : graph.Chain number (pre ++ key :: post)) :
    after.Chain number (pre ++ post) := by
  obtain ⟨hpreNodup, hpostNodup, hdisjoint⟩ := List.nodup_append.mp hchain.nodup
  have hkeyPost : key ∉ post := (List.nodup_cons.mp hpostNodup).1
  have hkeyPre : key ∉ pre := fun hmem => hdisjoint key hmem key List.mem_cons_self rfl
  have hkey : key ∉ pre ++ post := fun hmem =>
    (List.mem_append.mp hmem).elim hkeyPre hkeyPost
  obtain ⟨middle, hpre, hpost⟩ := Links.append_iff.mp hchain.links
  obtain ⟨rfl, node', hnode', hpost⟩ := Links.cons_iff.mp hpost
  cases hnode.symm.trans hnode'
  have hsamePre (other : Key) (hother : other ∈ pre) (hne : pre.getLast? ≠ some other) :
      after.node? other = graph.node? other := by
    have hneKey : other ≠ key := fun heq => hkeyPre (heq ▸ hother)
    simp [node?, hfreed.cell?_eq, hneKey, hne]
  have hsamePost (other : Key) (hother : other ∈ post) : after.node? other = graph.node? other := by
    have hneKey : other ≠ key := fun heq => hkeyPost (heq ▸ hother)
    have hne : pre.getLast? ≠ some other := fun heq =>
      hdisjoint other (List.mem_of_getLast? heq) other (List.mem_cons_of_mem key hother) rfl
    simp [node?, hfreed.cell?_eq, hneKey, hne]
  have hlastPre (last : Key) (lastNode : Node α) (hlast : pre.getLast? = some last)
      (hlastNode : graph.node? last = some lastNode) :
      after.node? last = some { lastNode with next := node.next } := by
    have hneKey : last ≠ key := fun heq => hkeyPre (heq ▸ List.mem_of_getLast? hlast)
    obtain ⟨cell, hcell, rfl⟩ := node?_eq_some_iff.mp hlastNode
    simp [node?, hfreed.cell?_eq, hneKey, hlast, hcell, Cell.follow]
  refine ⟨?_, ?_, ?_, ?_⟩
  · have hhead : after.head? number = if pre = [] then node.next else graph.head? number := by
      simp [hfreed.head?_eq]
    rw [hhead, Links.append_iff]
    exact ⟨node.next, hpre.redirect hpreNodup hlastPre hsamePre, hpost.congr hsamePost⟩
  · rw [hfreed.last?_eq, hchain.last_eq]
    cases post with
    | nil => simp
    | cons second rest =>
        obtain ⟨last, hlast⟩ : ∃ last, (second :: rest).getLast? = some last :=
          ⟨_, List.getLast?_eq_some_getLast (List.cons_ne_nil second rest)⟩
        have hne : last ≠ key := fun heq => hkeyPost (heq ▸ List.mem_of_getLast? hlast)
        simp [List.getLast?_append, hlast, hne]
  · intro other
    have hmem : other ∈ pre ++ key :: post ↔ other = key ∨ other ∈ pre ++ post := by
      simp [or_left_comm]
    rw [hfreed.place?_eq]
    by_cases heq : other = key
    · simp [heq, hkey]
    · rw [if_neg heq, ← hchain.mem_iff other, hmem]
      simp [heq]
  · have hsublist : (pre ++ post).Sublist (pre ++ key :: post) :=
      List.Sublist.append_left (List.sublist_cons_self key post) pre
    apply (hchain.increasing.sublist hsublist).imp_of_mem
    intro first second hfirst hsecond hlt
    have hplace (other : Key) (hother : other ∈ pre ++ post) :
        after.placeAt other = graph.placeAt other := by
      have hne : other ≠ key := fun heq => hkey (heq ▸ hother)
      simp [placeAt, hfreed.place?_eq, hne]
    rwa [hplace _ hfirst, hplace _ hsecond]

/-- The chains of all other groups are as before. -/
theorem Freed.chain_of_ne {before next : Option Key} {other : Nat} {keys groupKeys : List Key}
    (hfreed : graph.Freed number key before next after) (hother : other ≠ number)
    (hgroup : graph.Chain number groupKeys) (hkey : key ∈ groupKeys)
    (hbefore : ∀ stored, before = some stored → stored ∈ groupKeys)
    (hchain : graph.Chain other keys) : after.Chain other keys := by
  have hapart (stored : Key) (hstored : stored ∈ keys) : stored ∉ groupKeys := fun hmem => by
    obtain ⟨id, hplace⟩ := (hchain.mem_iff stored).mp hstored
    obtain ⟨id', hplace'⟩ := (hgroup.mem_iff stored).mp hmem
    rw [hplace] at hplace'
    cases hplace'
    exact hother rfl
  apply hchain.congr
  · simp [hfreed.head?_eq, hother]
  · simp [hfreed.last?_eq, hother]
  · intro stored hstored
    have hne : stored ≠ key := fun heq => hapart stored hstored (heq ▸ hkey)
    have hneBefore : before ≠ some stored := fun heq =>
      hapart stored hstored (hbefore stored heq)
    simp [node?, hfreed.cell?_eq, hne, hneBefore]
  · intro stored id
    rw [hfreed.place?_eq]
    by_cases heq : stored = key
    · obtain ⟨id', hplace⟩ := (hgroup.mem_iff key).mp hkey
      have hne : number ≠ other := fun heq' => hother heq'.symm
      simp [heq, hplace, hne]
    · rw [if_neg heq]

theorem Freed.sound (hfreed : graph.Freed number key pre.getLast? node.next after)
    (hnode : graph.node? key = some node) (hchain : graph.Chain number (pre ++ key :: post))
    (hsound : graph.Sound) : after.Sound := by
  have hsize := hfreed.size_eq
  -- Every place that is left was a place before.
  have hplace (stored : Key) (place : Place) (hstored : after.place? stored = some place) :
      graph.place? stored = some place := by
    rw [hfreed.place?_eq] at hstored
    split at hstored
    · cases hstored
    · exact hstored
  refine ⟨hfreed.tidy, ?_, ?_, ?_, ?_, ?_, ?_, ?_, ?_⟩
  · intro other hother
    obtain ⟨keys, hkeys⟩ := hsound.chained other (hsize ▸ hother)
    by_cases heq : other = number
    · subst heq
      exact ⟨pre ++ post, hfreed.chain hnode hchain⟩
    · exact ⟨keys, hfreed.chain_of_ne heq hchain (by simp)
        (fun stored hstored => List.mem_append_left _ (List.mem_of_getLast? hstored)) hkeys⟩
  · intro stored place hstored
    exact hsize ▸ hsound.grouped stored place (hplace stored place hstored)
  · intro stored place hstored
    exact hfreed.nextId_eq ▸ hsound.numbered stored place (hplace stored place hstored)
  · intro first second place place' hfirst hsecond hsame
    exact hsound.distinct first second place place' (hplace first place hfirst)
      (hplace second place' hsecond) hsame
  · rw [hfreed.slots_eq, hfreed.nextId_eq]
    exact hsound.slots_le
  · rw [hfreed.nextId_eq, hsound.width_eq]
  · rw [hfreed.outline_eq, hsize, hsound.outline_eq]
  · rw [hfreed.lastGroup_eq, hsize, hsound.lastGroup_eq]

/-- A graph from which some elements have been taken out, and which is as before otherwise. -/
structure Swept (graph : Graph α) (keys : List Key) (after : Graph α) : Prop where
  stored?_eq : ∀ other, after.stored? other = if other ∈ keys then none else graph.stored? other
  chain : ∀ number chainKeys, graph.Chain number chainKeys →
    after.Chain number (chainKeys.filter (· ∉ keys))
  outline_eq : after.outline = graph.outline
  lastGroup_eq : after.lastGroup = graph.lastGroup
  nextId_eq : after.nextId = graph.nextId

theorem Swept.size_eq {keys : List Key} (hswept : graph.Swept keys after) :
    after.groups.size = graph.groups.size := by
  rw [← length_outline after, hswept.outline_eq, length_outline]

/-- What is stored after dead elements were freed was stored before. -/
theorem Swept.stored?_before {keys : List Key} (hswept : graph.Swept keys after) {key : Key}
    {now : Entry α} (hnow : after.stored? key = some now) : graph.stored? key = some now := by
  rw [hswept.stored?_eq] at hnow
  split at hnow
  · cases hnow
  · exact hnow

/-- Freeing one dead element leaves a sound graph without it. -/
theorem free_swept (hsound : graph.Sound) (hdead : graph.Dead key) :
    ∃ node after, graph.free key = .ok (node, after) ∧ graph.node? key = some node ∧
      after.Sound ∧ graph.Swept [key] after ∧
      after.store.slots.size = graph.store.slots.size := by
  obtain ⟨entry, hentry, hdeleted, hfree⟩ := hdead
  obtain ⟨cell, hcell, rfl⟩ := stored?_eq_some_iff.mp hentry
  have hnode : graph.node? key = some cell.content := by simp [node?, hcell]
  have hplace := place?_of_node? hnode
  obtain ⟨pre, post, hchain⟩ := hsound.exists_chain hplace
  obtain ⟨after, heq, hfreed⟩ := free_spec hsound hcell hdeleted hfree
    (hsound.grouped key _ hplace) hchain
  refine ⟨cell.content, after, heq, hnode, hfreed.sound hnode hchain hsound, ⟨?_, ?_,
    hfreed.outline_eq, hfreed.lastGroup_eq, hfreed.nextId_eq⟩, hfreed.slots_eq⟩
  · simpa using hfreed.stored?_eq
  · intro number keys hkeys
    by_cases hnumber : number = cell.content.group
    · subst hnumber
      obtain ⟨-, hpostNodup, hdisjoint⟩ := List.nodup_append.mp hchain.nodup
      have hpre (other : Key) (hother : other ∈ pre) : other ≠ key :=
        hdisjoint other hother key List.mem_cons_self
      have hpost (other : Key) (hother : other ∈ post) : other ≠ key := fun heq' =>
        (List.nodup_cons.mp hpostNodup).1 (heq' ▸ hother)
      have hfilter : (pre ++ key :: post).filter (· ∉ [key]) = pre ++ post := by
        rw [List.filter_append, List.filter_cons, List.filter_eq_self.mpr (by simpa using hpre),
          List.filter_eq_self.mpr (by simpa using hpost)]
        simp
      rw [hkeys.unique hchain, hfilter]
      exact hfreed.chain hnode hchain
    · have hafter := hfreed.chain_of_ne hnumber hchain (by simp)
        (fun stored hstored => List.mem_append_left _ (List.mem_of_getLast? hstored)) hkeys
      have hfilter : keys.filter (· ∉ [key]) = keys := by
        apply List.filter_eq_self.mpr
        intro other hother
        obtain ⟨id, hid⟩ := (hafter.mem_iff other).mp hother
        have hne : other ≠ key := fun heq' => by simp [hfreed.place?_eq, heq'] at hid
        simpa using hne
      rwa [hfilter]

theorem Swept.refl (graph : Graph α) : graph.Swept [] graph where
  stored?_eq := by simp
  chain number keys hchain := by
    rwa [List.filter_eq_self.mpr (by simp)]
  outline_eq := rfl
  lastGroup_eq := rfl
  nextId_eq := rfl

theorem Swept.trans {middle : Graph α} {first second : List Key}
    (hfirst : graph.Swept first middle) (hsecond : middle.Swept second after) :
    graph.Swept (first ++ second) after where
  stored?_eq other := by
    rw [hsecond.stored?_eq, hfirst.stored?_eq]
    by_cases hother : other ∈ first <;> simp [hother]
  chain number keys hchain := by
    have hboth := hsecond.chain number _ (hfirst.chain number keys hchain)
    rw [List.filter_filter] at hboth
    have hfilter : keys.filter (· ∉ first ++ second) =
        keys.filter fun key => decide (key ∉ second) && decide (key ∉ first) := by
      apply List.filter_congr
      intro key _
      simp [Bool.and_comm]
    rwa [hfilter]
  outline_eq := hsecond.outline_eq.trans hfirst.outline_eq
  lastGroup_eq := hsecond.lastGroup_eq.trans hfirst.lastGroup_eq
  nextId_eq := hsecond.nextId_eq.trans hfirst.nextId_eq

/-- What was stored at the freed keys is handed out in order, with its group and its data. -/
structure Released (graph : Graph α) (keys : List Key) (freed : List (Key × Node α)) : Prop where
  keys_eq : freed.map Prod.fst = keys
  entry : ∀ key node, (key, node) ∈ freed →
    ∃ entry, graph.stored? key = some entry ∧ entry.group = node.group ∧ entry.data = node.data

theorem Released.mem_keys {keys : List Key} {freed : List (Key × Node α)} {node : Node α}
    (hreleased : graph.Released keys freed) (hnode : (key, node) ∈ freed) : key ∈ keys :=
  hreleased.keys_eq ▸ List.mem_map_of_mem hnode

/-- What was stored at a freed key is among what is handed out. -/
theorem Released.exists_node {keys : List Key} {freed : List (Key × Node α)} {entry : Entry α}
    (hreleased : graph.Released keys freed) (hkey : key ∈ keys)
    (hentry : graph.stored? key = some entry) :
    ∃ node, (key, node) ∈ freed ∧ node.group = entry.group ∧ node.data = entry.data := by
  rw [← hreleased.keys_eq, List.mem_map] at hkey
  obtain ⟨⟨key, node⟩, hnode, rfl⟩ := hkey
  obtain ⟨found, hfound, hgroup, hdata⟩ := hreleased.entry key node hnode
  cases hentry.symm.trans hfound
  exact ⟨node, hnode, hgroup.symm, hdata.symm⟩

/-- Free elements in order, and return what was stored at their keys. -/
def freeAll (graph : Graph α) : List Key → Except Fault (List (Key × Node α) × Graph α)
  | [] => return ([], graph)
  | key :: rest => do
      let (node, graph) ← graph.free key
      let (freed, graph) ← graph.freeAll rest
      return ((key, node) :: freed, graph)

/-- Free every removed element that nothing refers to. -/
def reclaim (graph : Graph α) : Except Fault (List (Key × Node α) × Graph α) :=
  graph.freeAll graph.store.reclaimable

/-- Dead elements can be freed in any order. -/
theorem freeAll_swept {keys : List Key} (hsound : graph.Sound) (hnodup : keys.Nodup)
    (hdead : ∀ key ∈ keys, graph.Dead key) :
    ∃ freed after, graph.freeAll keys = .ok (freed, after) ∧ after.Sound ∧
      graph.Swept keys after ∧ after.store.slots.size = graph.store.slots.size ∧
      graph.Released keys freed := by
  induction keys generalizing graph with
  | nil => exact ⟨[], graph, rfl, hsound, .refl graph, rfl, rfl, by simp⟩
  | cons key rest ih =>
      obtain ⟨hkey, hrestNodup⟩ := List.nodup_cons.mp hnodup
      obtain ⟨node, middle, hfree, hnode, hmiddle, hswept, hslots⟩ :=
        free_swept hsound (hdead key List.mem_cons_self)
      have hrest (other : Key) (hother : other ∈ rest) :
          middle.stored? other = graph.stored? other := by
        have hne : other ≠ key := fun heq => hkey (heq ▸ hother)
        simp [hswept.stored?_eq, hne]
      have hdeadRest (other : Key) (hother : other ∈ rest) : middle.Dead other := by
        unfold Dead
        rw [hrest other hother]
        exact hdead other (List.mem_cons_of_mem key hother)
      obtain ⟨freed, after, hfreeRest, hafter, hsweptRest, hslotsRest, hkeys, hnodes⟩ :=
        ih hmiddle hrestNodup hdeadRest
      refine ⟨(key, node) :: freed, after, by simp [freeAll, hfree, hfreeRest], hafter,
        hswept.trans hsweptRest, hslotsRest.trans hslots, by simp [hkeys],
        fun other found hfound => ?_⟩
      rcases List.mem_cons.mp hfound with heq | hfound
      · cases heq
        obtain ⟨cell, hcell, rfl⟩ := node?_eq_some_iff.mp hnode
        exact ⟨cell.entry, by simp [stored?, hcell], rfl, rfl⟩
      · have hother : other ∈ rest := hkeys ▸ List.mem_map_of_mem hfound
        rw [← hrest other hother]
        exact hnodes other found hfound

theorem mem_reclaimable_iff : key ∈ graph.store.reclaimable ↔ graph.Dead key := by
  rw [Store.reclaimable_eq, Store.mem_keysWhere]
  simp only [Dead, stored?_eq_some_iff]
  constructor
  · rintro ⟨cell, hcell, hholds⟩
    simp only [Bool.and_eq_true, beq_iff_eq] at hholds
    exact ⟨cell.entry, ⟨cell, hcell, rfl⟩, hholds⟩
  · rintro ⟨_, ⟨cell, hcell, rfl⟩, hdeleted, hfree⟩
    refine ⟨cell, hcell, ?_⟩
    simp only [Bool.and_eq_true, beq_iff_eq]
    exact ⟨hdeleted, hfree⟩

/-- Reclaiming takes out just the elements that are removed and not referred to. -/
theorem reclaim_swept (hsound : graph.Sound) :
    ∃ freed after, graph.reclaim = .ok (freed, after) ∧ after.Sound ∧
      graph.Swept graph.store.reclaimable after ∧
      after.store.slots.size = graph.store.slots.size ∧
      graph.Released graph.store.reclaimable freed :=
  freeAll_swept hsound (Store.nodup_keysWhere _) fun _ => mem_reclaimable_iff.mp

section Filed

variable {ι : Type} (unfile : ι → Key → Node α → ι)

theorem get_setSuccessor {before next : Option Key} (hbefore : before ≠ some key)
    (hset : graph.setSuccessor number before next = .ok after) :
    after.store.get key = graph.store.get key := by
  cases before with
  | none =>
      obtain ⟨group, -, hafter⟩ := bind_eq_ok.mp hset
      cases hafter
      rfl
  | some other =>
      have hne : key ≠ other := fun heq => hbefore (congrArg some heq.symm)
      simp only [setSuccessor, Store.set, bind_eq_ok] at hset
      obtain ⟨_, -, store, ⟨cell, hcell, hstore⟩, hafter⟩ := hset
      cases hstore
      cases hafter
      simp [Store.get, Store.cell_put hcell, hne]

/-- An element that is taken out of its chain stays as it is. -/
theorem get_unlink (hunlink : graph.unlink key = .ok after) :
    after.store.get key = graph.store.get key := by
  simp only [unlink, bind_eq_ok] at hunlink
  obtain ⟨node, -, keys, -, group, -, linked, hset, hafter⟩ := hunlink
  have hbefore : (keys.takeWhile (· ≠ key)).getLast? ≠ some key := fun heq => by
    have hall := List.all_eq_true.mp List.all_takeWhile key (List.mem_of_getLast? heq)
    simp at hall
  have hlinked := get_setSuccessor hbefore hset
  split at hafter
  · obtain ⟨last, -, hlast⟩ := bind_eq_ok.mp hafter
    cases hlast
    exact hlinked
  · cases hafter
    exact hlinked

theorem get_of_reclaim {store after : Store (Node α)}
    (hreclaim : store.reclaim key = .ok (node, after)) : store.get key = .ok node := by
  simp only [Store.reclaim, bind_eq_ok] at hreclaim
  obtain ⟨cell, hcell, hafter⟩ := hreclaim
  split at hafter
  · cases hafter
  · split at hafter
    · cases hafter
    · cases hafter
      simp [Store.get, hcell]

/-- Freeing elements one by one and taking each out of the index on the way is freeing them all and
then taking them out of the index in order. -/
theorem freeFiled_eq (graph : Graph α) (index : ι) (keys : List Key) :
    freeFiled unfile graph index keys = (do
      let (freed, graph) ← graph.freeAll keys
      return (graph, freed.foldl (fun index (key, node) => unfile index key node) index)) := by
  induction keys generalizing graph index with
  | nil => rfl
  | cons key rest ih =>
      simp only [freeFiled, freeAll, free]
      cases hget : graph.store.get key with
      | error fault => simp [unlink, hget]
      | ok node =>
          cases hunlink : graph.unlink key with
          | error fault => rfl
          | ok linked =>
              simp only [ok_bind]
              cases hreclaim : linked.store.reclaim key with
              | error fault => rfl
              | ok result =>
                  obtain ⟨freedNode, store⟩ := result
                  have hsame := (get_of_reclaim hreclaim).symm.trans
                    ((get_unlink hunlink).trans hget)
                  cases hsame
                  simp only [ok_bind, pure_eq_ok, ih]
                  cases ({ linked with store } : Graph α).freeAll rest <;> rfl

theorem length_freeAll {keys : List Key} {freed : List (Key × Node α)}
    (hfree : graph.freeAll keys = .ok (freed, after)) : freed.length = keys.length := by
  induction keys generalizing graph freed with
  | nil =>
      cases hfree
      rfl
  | cons key rest ih =>
      simp only [freeAll, bind_eq_ok, Prod.exists] at hfree
      obtain ⟨node, middle, -, others, last, hrest, heq⟩ := hfree
      cases heq
      exact congrArg (· + 1) (ih hrest)

/-- Reclaiming takes the freed elements out of the index. -/
theorem reclaimFiled_eq (graph : Graph α) (index : ι) :
    graph.reclaimFiled unfile index = (do
      let (freed, graph) ← graph.reclaim
      return (freed.length, graph,
        freed.foldl (fun index (key, node) => unfile index key node) index)) := by
  simp only [reclaimFiled, reclaim, freeFiled_eq]
  cases hfree : graph.freeAll graph.store.reclaimable with
  | error fault => rfl
  | ok result =>
      obtain ⟨freed, after⟩ := result
      simp [length_freeAll hfree]

end Filed

end FormalLanguages.Graph
