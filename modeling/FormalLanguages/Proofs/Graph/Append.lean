/-
# Appending puts an element at the end of one chain

A new element gets the next number, and takes its place behind the last element of its group.
All other chains stay as they are, and so does everything that can be read of the elements that
were there.  The only way in which appending fails is that the numbers have run out.
-/

import FormalLanguages.Proofs.Graph

namespace FormalLanguages

/-- An index has a successor, or there is no room for one. -/
theorem Index.succ_eq (index : Index) :
    (∃ next, index.succ = .ok next) ∨ index.succ = .error (.overflow index.kind) := by
  unfold succ
  split
  · exact .inl ⟨_, rfl⟩
  · exact .inr rfl

theorem Index.succ_eq_ok_iff {index next : Index} :
    index.succ = .ok next ↔
      index.value + 1 < Nat.pow 2 index.width ∧ next = { index with value := index.value + 1 } := by
  unfold succ
  split
  · next hroom =>
      exact ⟨fun heq => ⟨hroom, (Except.ok.inj heq).symm⟩, fun hnext => congrArg _ hnext.2.symm⟩
  · next hfull => exact ⟨fun heq => (by cases heq), fun hnext => absurd hnext.1 hfull⟩

/-- There is no room for a successor only at the greatest number of the width. -/
theorem Index.le_of_succ_eq_error {index : Index} {fault : Fault}
    (hsucc : index.succ = .error fault) : Nat.pow 2 index.width ≤ index.value + 1 := by
  unfold succ at hsucc
  split at hsucc
  · cases hsucc
  · next hfull => exact Nat.not_lt.mp hfull

namespace Graph

variable {α : Type} {graph after : Graph α} {number : Nat} {data : α} {key : Key}

/-- A graph after an element was appended to a group under a key that was not used. -/
structure Appended (graph : Graph α) (number : Nat) (data : α) (key : Key) (after : Graph α) :
    Prop where
  fresh : graph.store.cell? key = none
  cell?_eq : ∀ other, after.store.cell? other =
    if other = key then
      some { content := { id := graph.nextId.value, group := number, next := none, data } }
    else if graph.last? number = some other then
      (graph.store.cell? other).map (·.follow (some key))
    else graph.store.cell? other
  head?_eq : ∀ other, after.head? other =
    if graph.last? number = none ∧ other = number then some key else graph.head? other
  last?_eq : ∀ other, after.last? other =
    if other = number then some key else graph.last? other
  outline_eq : after.outline = graph.outline
  lastGroup_eq : after.lastGroup = graph.lastGroup
  nextId_eq : graph.nextId.succ = .ok after.nextId
  slots_le : after.store.slots.size ≤ graph.store.slots.size + 1
  tidy : after.store.Tidy

/-- As long as there is a number left for another element there is room for it: a store has no more
slots than elements have had numbers. -/
theorem Sound.isFull_eq_false (hsound : graph.Sound) {nextId : Index}
    (hroom : graph.nextId.succ = .ok nextId) : graph.store.isFull = false := by
  have hlt := (Index.succ_eq_ok_iff.mp hroom).1
  rw [hsound.width_eq] at hlt
  have hslots : graph.store.slots.size < 2 ^ 32 :=
    Nat.lt_of_le_of_lt hsound.slots_le (Nat.lt_of_succ_lt hlt)
  exact Store.isFull_eq_false hslots

/-- Appending succeeds as long as there is a number left. -/
theorem append_spec (hsound : graph.Sound) (hnumber : number < graph.groups.size)
    {nextId : Index} (hroom : graph.nextId.succ = .ok nextId) (data : α) :
    ∃ key after, graph.append number data = .ok (key, after) ∧
      graph.Appended number data key after := by
  let node : Node α := { id := graph.nextId.value, group := number, next := none, data }
  let key := (graph.store.place node).1
  let stored : Graph α := { graph with store := (graph.store.place node).2, nextId }
  have hcell := Store.cell?_place hsound.tidy node
  have hfresh : graph.store.cell? key = none := Store.cell?_place_key hsound.tidy node
  have hinsert : graph.store.insert node = (.ok key, stored.store) :=
    Store.insert_eq (hsound.isFull_eq_false hroom) node
  obtain ⟨keys, hchain⟩ := hsound.chained number hnumber
  -- The element that was last is still stored, so the new one can be linked behind it.
  have hbefore (last : Key) (hlast : graph.last? number = some last) :
      ∃ cell, stored.store.cell? last = some cell := by
    rw [hchain.last_eq] at hlast
    obtain ⟨cell, hold⟩ := hchain.stored_of_mem (List.mem_of_getLast? hlast)
    have hne : last ≠ key := fun heq => by simp [heq, hfresh] at hold
    exact ⟨cell, (hcell last).trans ((if_neg hne).trans hold)⟩
  have hnumberStored : number < stored.groups.size := hnumber
  obtain ⟨linked, hlinkedEq, hlinked⟩ := setSuccessor_spec hnumberStored hbefore (some key)
  have hsize : linked.groups.size = graph.groups.size := by
    rw [← length_outline linked, hlinked.outline_eq]
    exact length_outline graph
  obtain ⟨after, hafterEq, hafter⟩ := setLast_spec (hsize ▸ hnumber) (some key)
  refine ⟨key, after, ?_, hfresh, ?_, ?_, ?_, ?_, ?_, ?_, ?_, ?_⟩
  · have hgroup : graph.groups[number].last = graph.last? number := by simp [last?, hnumber]
    simp only [append, group_eq hnumber, hroom, ok_bind, hgroup]
    rw [show graph.store.insert { id := graph.nextId.value, group := number, next := none, data } =
      (.ok key, stored.store) from hinsert, ok_bind]
    rw [show stored.setSuccessor number (graph.last? number) (some key) = .ok linked from hlinkedEq,
      ok_bind, hafterEq]
    rfl
  · intro other
    rw [hafter.store_eq, hlinked.cell?_eq, hcell]
    by_cases hother : other = key
    · have hne : graph.last? number ≠ some key := fun hlast => by
        obtain ⟨cell, hstored⟩ := hchain.stored_of_mem
          (List.mem_of_getLast? (hchain.last_eq.symm.trans hlast))
        simp [hfresh] at hstored
      simp [hother, hne, node, key]
    · rw [if_neg hother, if_neg hother]
  · intro other
    rw [hafter.head?_eq, hlinked.head?_eq]
    rfl
  · intro other
    rw [hafter.last?_eq, hlinked.last?_eq]
    rfl
  · rw [hafter.outline_eq, hlinked.outline_eq]
    rfl
  · rw [hafter.lastGroup_eq, hlinked.lastGroup_eq]
  · rw [hafter.nextId_eq, hlinked.nextId_eq, hroom]
  · rw [hafter.store_eq, hlinked.slots_eq]
    exact Store.size_place_le graph.store node
  · rw [hafter.store_eq]
    exact hlinked.tidy (hsound.tidy.place node)

/-- Appending ends in a fault if the numbers have run out. -/
theorem append_eq_overflow (hnumber : number < graph.groups.size)
    (hfull : graph.nextId.succ = .error (.overflow graph.nextId.kind)) (data : α) :
    graph.append number data = .error (.overflow graph.nextId.kind) := by
  simp [append, group_eq hnumber, hfull]

namespace Appended

variable (happended : graph.Appended number data key after)

include happended

theorem size_eq : after.groups.size = graph.groups.size := by
  rw [← length_outline after, happended.outline_eq, length_outline]

theorem nextId_value : after.nextId.value = graph.nextId.value + 1 := by
  rw [(Index.succ_eq_ok_iff.mp happended.nextId_eq).2]

/-- Nothing that was stored changes apart from its link. -/
theorem stored?_eq (other : Key) :
    after.stored? other =
      if other = key then
        some
          { id := graph.nextId.value, group := number, data, deleted := false, references := 0 }
      else graph.stored? other := by
  simp only [stored?, happended.cell?_eq]
  split
  · rfl
  · split
    · cases graph.store.cell? other <;> rfl
    · rfl

theorem stored?_key : graph.stored? key = none := by simp [stored?, happended.fresh]

theorem place?_eq (other : Key) :
    after.place? other =
      if other = key then some ⟨number, graph.nextId.value⟩ else graph.place? other := by
  rw [place?, happended.stored?_eq]
  split <;> rfl

theorem place?_key : graph.place? key = none := by simp [place?, happended.stored?_key]

/-- The chain of the group is longer by the new element. -/
theorem chain {keys : List Key} (hsound : graph.Sound) (hchain : graph.Chain number keys) :
    after.Chain number (keys ++ [key]) := by
  have hplaceKey := happended.place?_key
  have hkey : key ∉ keys := fun hmem => by
    obtain ⟨id, hplace⟩ := (hchain.mem_iff key).mp hmem
    simp [hplaceKey] at hplace
  have hother (other : Key) (hmem : other ∈ keys) : after.place? other = graph.place? other := by
    have hne : other ≠ key := fun heq => hkey (heq ▸ hmem)
    rw [happended.place?_eq, if_neg hne]
  have hnodeOther (other : Key) (hmem : other ∈ keys) (hnotLast : keys.getLast? ≠ some other) :
      after.node? other = graph.node? other := by
    have hne : other ≠ key := fun heq => hkey (heq ▸ hmem)
    simp [node?, happended.cell?_eq, hne, hchain.last_eq, hnotLast]
  have hnodeLast (last : Key) (node : Node α) (hlast : keys.getLast? = some last)
      (hnode : graph.node? last = some node) :
      after.node? last = some { node with next := some key } := by
    have hne : last ≠ key := fun heq => hkey (heq ▸ List.mem_of_getLast? hlast)
    obtain ⟨cell, hcell, rfl⟩ := node?_eq_some_iff.mp hnode
    simp [node?, happended.cell?_eq, hne, hchain.last_eq, hlast, hcell, Cell.follow]
  have hnodeKey : after.node? key = some ⟨graph.nextId.value, number, none, data⟩ := by
    simp [node?, happended.cell?_eq]
  refine ⟨?_, ?_, ?_, ?_⟩
  · have hhead : after.head? number = if keys = [] then some key else graph.head? number := by
      simp [happended.head?_eq, hchain.last_eq]
    rw [hhead, Links.append_iff]
    exact ⟨some key, hchain.links.redirect hchain.nodup hnodeLast hnodeOther,
      .cons hnodeKey (.nil none)⟩
  · rw [happended.last?_eq, if_pos rfl, List.getLast?_concat]
  · intro other
    rw [List.mem_append, List.mem_singleton, hchain.mem_iff, happended.place?_eq]
    by_cases heq : other = key
    · simp [heq]
    · simp [heq]
  · refine List.pairwise_append.mpr ⟨hchain.increasing_congr hother, List.pairwise_singleton _ _,
      fun first hfirst second hsecond => ?_⟩
    obtain ⟨id, hplace⟩ := (hchain.mem_iff first).mp hfirst
    rw [List.mem_singleton.mp hsecond, placeAt_eq ((hother first hfirst).trans hplace),
      placeAt_eq ((happended.place?_eq key).trans (if_pos rfl))]
    exact .inr ⟨rfl, hsound.numbered first _ hplace⟩

/-- The chains of all other groups are as before. -/
theorem chain_of_ne {other : Nat} {keys : List Key} (hsound : graph.Sound)
    (hnumber : number < graph.groups.size) (hother : other ≠ number)
    (hchain : graph.Chain other keys) : after.Chain other keys := by
  obtain ⟨groupKeys, hgroup⟩ := hsound.chained number hnumber
  have hplaceKey := happended.place?_key
  apply hchain.congr
  · simp [happended.head?_eq, hother]
  · simp [happended.last?_eq, hother]
  · intro stored hstored
    obtain ⟨id, hplace⟩ := (hchain.mem_iff stored).mp hstored
    have hne : stored ≠ key := fun heq => by simp [heq, hplaceKey] at hplace
    have hnotLast : graph.last? number ≠ some stored := fun hlast => by
      rw [hgroup.last_eq] at hlast
      obtain ⟨id', hplace'⟩ := (hgroup.mem_iff stored).mp (List.mem_of_getLast? hlast)
      rw [hplace] at hplace'
      cases hplace'
      exact hother rfl
    simp [node?, happended.cell?_eq, hne, hnotLast]
  · intro stored id
    rw [happended.place?_eq]
    by_cases heq : stored = key
    · have hne : number ≠ other := fun heq' => hother heq'.symm
      simp [heq, hplaceKey, hne]
    · rw [if_neg heq]

theorem sound (hsound : graph.Sound) (hnumber : number < graph.groups.size) : after.Sound := by
  have hsize := happended.size_eq
  have hid := happended.nextId_value
  have hplace := happended.place?_eq
  refine ⟨happended.tidy, ?_, ?_, ?_, ?_, ?_, ?_, ?_, ?_⟩
  · intro other hother
    obtain ⟨keys, hchain⟩ := hsound.chained other (hsize ▸ hother)
    by_cases heq : other = number
    · subst heq
      exact ⟨keys ++ [key], happended.chain hsound hchain⟩
    · exact ⟨keys, happended.chain_of_ne hsound hnumber heq hchain⟩
  · intro stored place hstored
    rw [hplace] at hstored
    split at hstored
    · cases hstored
      exact hsize ▸ hnumber
    · exact hsize ▸ hsound.grouped stored place hstored
  · intro stored place hstored
    rw [hplace] at hstored
    split at hstored
    · cases hstored
      exact hid ▸ Nat.lt_succ_self _
    · exact hid ▸ Nat.lt_succ_of_lt (hsound.numbered stored place hstored)
  · intro first second place place' hfirst hsecond hsame
    rw [hplace] at hfirst hsecond
    split at hfirst <;> split at hsecond
    · next heq heq' => exact heq.trans heq'.symm
    · next =>
        cases hfirst
        exact absurd (hsame ▸ hsound.numbered second place' hsecond) (Nat.lt_irrefl _)
    · next =>
        cases hsecond
        exact absurd (hsame ▸ hsound.numbered first place hfirst) (Nat.lt_irrefl _)
    · exact hsound.distinct first second place place' hfirst hsecond hsame
  · have hslots := happended.slots_le
    have hslotsBefore := hsound.slots_le
    omega
  · rw [(Index.succ_eq_ok_iff.mp happended.nextId_eq).2]
    exact hsound.width_eq
  · rw [happended.outline_eq, hsize, hsound.outline_eq]
  · rw [happended.lastGroup_eq, hsize, hsound.lastGroup_eq]

/-- There is one live element more. -/
theorem live_eq (hsound : graph.Sound) : after.size = graph.size + 1 := by
  let live (cell : Cell (Node α)) : Bool := !cell.deleted
  have hmem (other : Key) :
      other ∈ after.store.keysWhere live ↔ other ∈ key :: graph.store.keysWhere live := by
    simp only [List.mem_cons, Store.mem_keysWhere, happended.cell?_eq]
    by_cases hother : other = key
    · simp [hother, live]
    · simp only [hother, ↓reduceIte, false_or]
      split
      · cases graph.store.cell? other <;> simp [live, Cell.follow]
      · rfl
  have hnodup : (key :: graph.store.keysWhere live).Nodup := by
    refine List.nodup_cons.mpr ⟨fun hkey => ?_, Store.nodup_keysWhere live⟩
    obtain ⟨cell, hcell, -⟩ := (Store.mem_keysWhere live).mp hkey
    rw [happended.fresh] at hcell
    cases hcell
  have hperm := (List.perm_ext_iff_of_nodup (Store.nodup_keysWhere live) hnodup).mpr hmem
  have hlength := hperm.length_eq
  rw [List.length_cons, Store.length_keysWhere, Store.length_keysWhere] at hlength
  exact happended.tidy.live_eq.trans (hlength.trans (congrArg (· + 1) hsound.tidy.live_eq.symm))

end Appended

/-- A graph in which an element was created under a key that was not in use: with the next number,
at the end of the chain of its group.  Everything else that can be read of the graph is as
before. -/
structure Creates (graph : Graph α) (number : Nat) (data : α) (key : Key) (after : Graph α) :
    Prop where
  unused : ∀ element, graph.element key ≠ .ok element
  element_eq : after.element key =
    .ok { id := graph.nextId.value, group := number, data, deleted := false }
  others : ∀ other element, other ≠ key →
    (after.element other = .ok element ↔ graph.element other = .ok element)
  chain_eq : ∃ keys, graph.chain number = .ok keys ∧ after.chain number = .ok (keys ++ [key])
  chains : ∀ other, other ≠ number → after.chain other = graph.chain other
  size_eq : after.groups.size = graph.groups.size
  live_eq : after.size = graph.size + 1

theorem Appended.creates (happended : graph.Appended number data key after) (hsound : graph.Sound)
    (hnumber : number < graph.groups.size) : graph.Creates number data key after where
  unused element helement := by
    obtain ⟨entry, hentry, -⟩ := element_eq_ok_iff.mp helement
    rw [happended.stored?_key] at hentry
    cases hentry
  element_eq :=
    element_eq_ok_iff.mpr ⟨_, (happended.stored?_eq key).trans (if_pos rfl), rfl⟩
  others other element hother := by
    rw [element_eq_ok_iff, element_eq_ok_iff, happended.stored?_eq, if_neg hother]
  chain_eq := by
    obtain ⟨keys, hchain⟩ := hsound.chained number hnumber
    exact ⟨keys, hchain.chain_eq hnumber,
      (happended.chain hsound hchain).chain_eq (happended.size_eq ▸ hnumber)⟩
  chains other hother := by
    by_cases hlt : other < graph.groups.size
    · obtain ⟨keys, hchain⟩ := hsound.chained other hlt
      rw [hchain.chain_eq hlt, (happended.chain_of_ne hsound hnumber hother hchain).chain_eq
        (happended.size_eq ▸ hlt)]
    · simp [Graph.chain, Graph.group, happended.size_eq, hlt]
  size_eq := happended.size_eq
  live_eq := happended.live_eq hsound

end Graph

end FormalLanguages
