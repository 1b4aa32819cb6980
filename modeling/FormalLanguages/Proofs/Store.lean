/-
# A store is known by what its keys resolve to

The operations of a store are written over slots, but all that matters of a store outside of it is
what a key resolves to.  The view `cell?` gives just that, and each operation is described by one
equation about the view: the cell at the key it was given changes, and every other cell stays.

The slots that the view does not show are governed by `Tidy`: the free list names the empty slots,
each of them once, and the counter of live values counts the cells that are not removed.
-/

import Mathlib.Algebra.Group.Nat.Defs
import FormalLanguages.Proofs.Outcome
import FormalLanguages.Store

namespace FormalLanguages.Store

variable {α : Type} {store : Store α} {key other : Key} {cell : Cell α}

/-- What a key resolves to, if it is not stale. -/
def cell? (store : Store α) (key : Key) : Option (Cell α) := (store.cell key).toOption

/-- A key resolves to a cell exactly if the cell lies in its slot under its generation. -/
theorem cell?_eq_some_iff :
    store.cell? key = some cell ↔
      store.slots[key.index]? = some ⟨key.generation, some cell⟩ := by
  unfold cell? Store.cell
  split
  · next hnone => simp [hnone, Except.toOption]
  · next generation hempty => simp [hempty, Except.toOption]
  · next generation found hfull =>
      by_cases hgeneration : generation = key.generation
      · simp [hfull, hgeneration, Except.toOption]
      · simp [hfull, hgeneration, Except.toOption]

theorem cell_eq_ok_iff : store.cell key = .ok cell ↔ store.cell? key = some cell := by
  unfold cell?
  cases store.cell key <;> simp [Except.toOption]

/-- Why a key does not resolve depends only on whether its slot was ever there. -/
theorem cell_eq_error (hgone : store.cell? key = none) :
    store.cell key = .error (if key.index < store.slots.size then .staleKey key
      else .outOfBounds store.slots.size key.index) := by
  unfold cell? at hgone
  unfold Store.cell at hgone ⊢
  split
  · next hnone => rw [if_neg (Nat.not_lt.mpr (Array.getElem?_eq_none_iff.mp hnone))]
  · next hempty => rw [if_pos (Array.getElem?_eq_some_iff.mp hempty).1]
  · next generation found hslot =>
      by_cases hgeneration : generation = key.generation
      · simp [hslot, hgeneration, Except.toOption] at hgone
      · rw [if_neg hgeneration, if_pos (Array.getElem?_eq_some_iff.mp hslot).1]

/-- A key whose value is gone is stale, if it was ever handed out. -/
theorem cell_eq_staleKey (hgone : store.cell? key = none) (hplaced : key.index < store.slots.size) :
    store.cell key = .error (.staleKey key) := by
  rw [cell_eq_error hgone, if_pos hplaced]

/-- Two keys of one slot that both resolve are the same key. -/
theorem key_eq_of_index_eq {first second : Cell α} (hfirst : store.cell? key = some first)
    (hsecond : store.cell? other = some second) (hindex : key.index = other.index) :
    key = other := by
  rw [cell?_eq_some_iff] at hfirst hsecond
  rw [hindex, hsecond] at hfirst
  obtain ⟨index, generation⟩ := key
  obtain ⟨index', generation'⟩ := other
  simp_all

theorem index_lt_of_stored (hstored : store.cell? key = some cell) :
    key.index < store.slots.size := by
  rw [cell?_eq_some_iff] at hstored
  exact (Array.getElem?_eq_some_iff.mp hstored).1

theorem cell?_put (hstored : store.cell? key = some cell) (after : Cell α) (other : Key) :
    (store.put key after).cell? other = if other = key then some after else store.cell? other := by
  unfold cell?
  rw [cell_put (cell_eq_ok_iff.mpr hstored)]
  split <;> rfl

@[simp]
theorem cell?_empty (key : Key) : (empty : Store α).cell? key = none := by
  simp [cell?, Store.cell, empty, Except.toOption]

@[simp]
theorem size_put (store : Store α) (key : Key) (cell : Cell α) :
    (store.put key cell).slots.size = store.slots.size := by
  simp [put]

/-- The store in which the slot of a key has been emptied. -/
def vacate (store : Store α) (key : Key) : Store α :=
  { store with
    slots := store.slots.setIfInBounds key.index ⟨key.generation + 1, none⟩
    free := key.index :: store.free }

@[simp]
theorem size_vacate (store : Store α) (key : Key) :
    (store.vacate key).slots.size = store.slots.size := by
  simp [vacate]

/-- Emptying the slot of a key makes this key stale and no other one. -/
theorem cell?_vacate (hstored : store.cell? key = some cell) (other : Key) :
    (store.vacate key).cell? other = if other = key then none else store.cell? other := by
  have hlt := index_lt_of_stored hstored
  apply Option.ext
  intro found
  by_cases hindex : key.index = other.index
  · have hempty : (store.vacate key).cell? other ≠ some found := by
      rw [ne_eq, cell?_eq_some_iff]
      simp [vacate, ← hindex, hlt]
    have hsame : store.cell? other = some found → other = key := fun hother =>
      (key_eq_of_index_eq hstored hother hindex).symm
    split <;> simp_all
  · have hne : other ≠ key := fun heq => hindex (heq ▸ rfl)
    rw [if_neg hne, cell?_eq_some_iff, cell?_eq_some_iff]
    simp [vacate, hindex]

/-- The store in which the cell of a key has become a tombstone. -/
def bury (store : Store α) (key : Key) (cell : Cell α) : Store α :=
  { store.put key { cell with deleted := true } with live := store.live - 1 }

@[simp]
theorem size_bury (store : Store α) (key : Key) (cell : Cell α) :
    (store.bury key cell).slots.size = store.slots.size :=
  size_put store key { cell with deleted := true }

theorem cell?_bury (hstored : store.cell? key = some cell) (other : Key) :
    (store.bury key cell).cell? other =
      if other = key then some { cell with deleted := true } else store.cell? other :=
  cell?_put hstored { cell with deleted := true } other

section Operations

variable (hstored : store.cell? key = some cell)

include hstored

theorem get_eq : store.get key = .ok cell.content := by
  simp [get, cell_eq_ok_iff.mpr hstored]

theorem set_eq (content : α) :
    store.set key content = .ok (store.put key { cell with content }) := by
  simp [set, cell_eq_ok_iff.mpr hstored]

theorem hold_eq :
    store.hold key = .ok (store.put key { cell with references := cell.references + 1 }) := by
  simp [hold, cell_eq_ok_iff.mpr hstored]

theorem release_eq (hheld : cell.references ≠ 0) :
    store.release key =
      .ok (store.put key { cell with references := cell.references - 1 }) := by
  simp [release, cell_eq_ok_iff.mpr hstored, hheld]

/-- Giving back a reference that has just been taken leaves the store as it was. -/
theorem release_held :
    (store.put key { cell with references := cell.references + 1 }).release key = .ok store := by
  have hheld := (cell?_put hstored { cell with references := cell.references + 1 } key).trans
    (if_pos rfl)
  rw [release_eq hheld (Nat.succ_ne_zero _)]
  have hslots : store.slots.setIfInBounds key.index ⟨key.generation, some cell⟩ = store.slots := by
    apply Array.ext_getElem?
    intro place
    rw [Array.getElem?_setIfInBounds]
    split
    · next hplace =>
        subst hplace
        have hslot := cell?_eq_some_iff.mp hstored
        rw [hslot, if_pos (Array.getElem?_eq_some_iff.mp hslot).1]
    · rfl
  simp only [put, Nat.add_sub_cancel, Array.setIfInBounds_setIfInBounds, hslots]

theorem references_eq : store.references key = .ok cell.references := by
  simp [references, cell_eq_ok_iff.mpr hstored]

theorem isDeleted_eq : store.isDeleted key = .ok cell.deleted := by
  simp [isDeleted, cell_eq_ok_iff.mpr hstored]

theorem tombstone_eq :
    store.tombstone key =
      .ok (if cell.deleted then (false, store) else (true, store.bury key cell)) := by
  cases hdeleted : cell.deleted <;>
    simp [tombstone, bury, cell_eq_ok_iff.mpr hstored, hdeleted]

theorem reclaim_eq (hdeleted : cell.deleted = true) (hfree : cell.references = 0) :
    store.reclaim key = .ok (cell.content, store.vacate key) := by
  simp [reclaim, vacate, cell_eq_ok_iff.mpr hstored, hdeleted, hfree]

end Operations

section Listing

variable (holds : Cell α → Bool)

/-- The key of a place in a store, if its cell meets a condition. -/
def keyWhere (place : Slot α × Nat) : Option Key :=
  match place.1.cell with
  | some cell => if holds cell then some ⟨place.2, place.1.generation⟩ else none
  | none => none

/-- The keys whose cells meet a condition, in the order of their slots. -/
def keysWhere (store : Store α) : List Key :=
  store.slots.toList.zipIdx.filterMap (keyWhere holds)

/-- How many cells meet a condition. -/
def countWhere (store : Store α) : Nat :=
  store.slots.toList.countP fun slot => slot.cell.any holds

theorem reclaimable_eq :
    store.reclaimable = store.keysWhere fun cell => cell.deleted && cell.references == 0 := rfl

theorem keyWhere_eq_some_iff {place : Slot α × Nat} :
    keyWhere holds place = some key ↔
      ∃ cell, place = (⟨key.generation, some cell⟩, key.index) ∧ holds cell = true := by
  obtain ⟨⟨generation, content⟩, index⟩ := place
  obtain ⟨index', generation'⟩ := key
  cases content with
  | none => simp [keyWhere]
  | some cell =>
      simp only [keyWhere, Option.ite_none_right_eq_some, Option.some.injEq, Key.mk.injEq,
        Prod.mk.injEq, Slot.mk.injEq]
      constructor
      · rintro ⟨hholds, hindex, hgeneration⟩
        exact ⟨cell, ⟨⟨hgeneration, rfl⟩, hindex⟩, hholds⟩
      · rintro ⟨_, ⟨⟨hgeneration, rfl⟩, hindex⟩, hholds⟩
        exact ⟨hholds, hindex, hgeneration⟩

theorem mem_keysWhere :
    key ∈ store.keysWhere holds ↔ ∃ cell, store.cell? key = some cell ∧ holds cell = true := by
  simp only [keysWhere, List.mem_filterMap, keyWhere_eq_some_iff, cell?_eq_some_iff]
  constructor
  · rintro ⟨_, hplace, cell, rfl, hholds⟩
    exact ⟨cell, by simpa [List.mem_zipIdx_iff_getElem?] using hplace, hholds⟩
  · rintro ⟨cell, hslot, hholds⟩
    exact ⟨_, by simpa [List.mem_zipIdx_iff_getElem?] using hslot, cell, rfl, hholds⟩

/-- The keys are listed from the first slot to the last. -/
theorem pairwise_keysWhere :
    (store.keysWhere holds).Pairwise fun first second => first.index < second.index := by
  have hplaces : store.slots.toList.zipIdx.Pairwise fun first second => first.2 < second.2 := by
    rw [← List.pairwise_map (f := Prod.snd), List.zipIdx_map_snd]
    exact List.pairwise_lt_range'
  apply hplaces.filterMap _
  intro first second hlt key hkey key' hkey'
  obtain ⟨_, rfl, _⟩ := (keyWhere_eq_some_iff holds).mp hkey
  obtain ⟨_, rfl, _⟩ := (keyWhere_eq_some_iff holds).mp hkey'
  exact hlt

theorem nodup_keysWhere : (store.keysWhere holds).Nodup :=
  (pairwise_keysWhere holds).imp fun hlt heq => absurd (heq ▸ hlt) (Nat.lt_irrefl _)

theorem length_keysWhere : (store.keysWhere holds).length = store.countWhere holds := by
  have hcount (slots : List (Slot α)) (start : Nat) :
      ((slots.zipIdx start).filterMap (keyWhere holds)).length =
        slots.countP fun slot => slot.cell.any holds := by
    induction slots generalizing start with
    | nil => rfl
    | cons slot rest ih =>
        rw [List.zipIdx_cons, List.countP_cons, List.filterMap_cons, ← ih (start + 1)]
        obtain ⟨generation, content⟩ := slot
        cases content with
        | none => simp [keyWhere]
        | some cell => cases hholds : holds cell <;> simp [keyWhere, hholds]
  exact hcount store.slots.toList 0

/-- Different keys that all resolve are no more than there are slots. -/
theorem length_le_of_stored {keys : List Key} (hnodup : keys.Nodup)
    (hstored : ∀ key ∈ keys, ∃ cell, store.cell? key = some cell) :
    keys.length ≤ store.slots.size := by
  have hsubset : keys ⊆ store.keysWhere fun _ => true := fun key hkey => by
    obtain ⟨cell, hcell⟩ := hstored key hkey
    exact (mem_keysWhere _).mpr ⟨cell, hcell, rfl⟩
  calc
    keys.length ≤ (store.keysWhere fun _ => true).length := hnodup.length_le_of_subset hsubset
    _ = store.countWhere fun _ => true := length_keysWhere _
    _ ≤ store.slots.toList.length := List.countP_le_length
    _ = store.slots.size := Array.length_toList

/-- Replacing one slot changes a count by what the two slots contribute. -/
private theorem countP_setSlot {slots : Array (Slot α)} {index : Nat} {before : Slot α}
    (hslot : slots[index]? = some before) (after : Slot α) :
    (slots.setIfInBounds index after).toList.countP (fun slot => slot.cell.any holds) +
        (if before.cell.any holds then 1 else 0) =
      slots.toList.countP (fun slot => slot.cell.any holds) +
        (if after.cell.any holds then 1 else 0) := by
  obtain ⟨hlt, rfl⟩ := Array.getElem?_eq_some_iff.mp hslot
  have hcounted := List.boole_getElem_le_countP (p := fun slot : Slot α => slot.cell.any holds)
    (l := slots.toList) (i := index) (by simpa)
  have hset := List.countP_set (p := fun slot : Slot α => slot.cell.any holds)
    (a := after) (l := slots.toList) (i := index) (by simpa)
  simp only [Array.getElem_toList] at hcounted hset
  rw [Array.toList_setIfInBounds, hset]
  omega

/-- Replacing one cell changes a count by what the two cells contribute. -/
theorem countWhere_put (hstored : store.cell? key = some cell) (after : Cell α) :
    (store.put key after).countWhere holds + (if holds cell then 1 else 0) =
      store.countWhere holds + (if holds after then 1 else 0) :=
  countP_setSlot holds (cell?_eq_some_iff.mp hstored) ⟨key.generation, some after⟩

theorem countWhere_vacate (hstored : store.cell? key = some cell) :
    (store.vacate key).countWhere holds + (if holds cell then 1 else 0) =
      store.countWhere holds :=
  countP_setSlot holds (cell?_eq_some_iff.mp hstored) ⟨key.generation + 1, none⟩

end Listing

/-- The free list names the empty slots, each of them once, and the counter of live values exceeds
their number by as much as it may. -/
structure Tidy (store : Store α) (excess : Nat := 0) : Prop where
  free_nodup : store.free.Nodup
  mem_free_iff : ∀ index,
    index ∈ store.free ↔ ∃ generation, store.slots[index]? = some ⟨generation, none⟩
  live_eq : store.live = store.countWhere (fun cell => !cell.deleted) + excess

theorem tidy_empty : (empty : Store α).Tidy where
  free_nodup := List.nodup_nil
  mem_free_iff := by simp [empty]
  live_eq := rfl

/-- Replacing a full slot by a full slot leaves the empty slots as they are. -/
private theorem empty_setFull {slots : Array (Slot α)} {place index : Nat}
    {generation generation' : UInt32} {before after : Cell α}
    (hslot : slots[place]? = some ⟨generation, some before⟩) :
    (∃ emptied, (slots.setIfInBounds place ⟨generation', some after⟩)[index]? =
        some ⟨emptied, none⟩) ↔
      ∃ emptied, slots[index]? = some ⟨emptied, none⟩ := by
  by_cases hindex : place = index
  · subst hindex
    obtain ⟨hlt, hget⟩ := Array.getElem?_eq_some_iff.mp hslot
    simp [hlt, hget]
  · simp [hindex]

namespace Tidy

variable {excess : Nat} (htidy : store.Tidy excess)

include htidy

/-- Changing a cell without removing its value keeps a store tidy. -/
theorem put (hstored : store.cell? key = some cell) {after : Cell α}
    (hdeleted : after.deleted = cell.deleted) : (store.put key after).Tidy excess where
  free_nodup := htidy.free_nodup
  mem_free_iff index :=
    (htidy.mem_free_iff index).trans (empty_setFull (cell?_eq_some_iff.mp hstored)).symm
  live_eq := by
    have hcount := countWhere_put (fun cell => !cell.deleted) hstored after
    rw [hdeleted] at hcount
    exact htidy.live_eq.trans (congrArg (· + excess) (Nat.add_right_cancel hcount).symm)

/-- A store that keeps a live value counts at least one. -/
theorem live_pos (hstored : store.cell? key = some cell) (hlive : cell.deleted = false) :
    0 < store.live := by
  rw [htidy.live_eq, ← length_keysWhere]
  exact Nat.add_pos_left
    (List.length_pos_of_mem ((mem_keysWhere _).mpr ⟨cell, hstored, by simp [hlive]⟩)) excess

theorem bury (hstored : store.cell? key = some cell) (hlive : cell.deleted = false) :
    (store.bury key cell).Tidy excess where
  free_nodup := htidy.free_nodup
  mem_free_iff index :=
    (htidy.mem_free_iff index).trans (empty_setFull (cell?_eq_some_iff.mp hstored)).symm
  live_eq := by
    have hcount := countWhere_put (fun cell => !cell.deleted) hstored
      { cell with deleted := true }
    simp only [hlive, Bool.not_false, ↓reduceIte, Bool.not_true, Bool.false_eq_true] at hcount
    have hlive_eq := htidy.live_eq
    change store.live - 1 = (store.put key { cell with deleted := true }).countWhere _ + excess
    omega

theorem vacate (hstored : store.cell? key = some cell) (hdeleted : cell.deleted = true) :
    (store.vacate key).Tidy excess where
  free_nodup := by
    refine List.nodup_cons.mpr ⟨fun hfree => ?_, htidy.free_nodup⟩
    obtain ⟨generation, hempty⟩ := (htidy.mem_free_iff key.index).mp hfree
    rw [cell?_eq_some_iff.mp hstored] at hempty
    cases hempty
  mem_free_iff index := by
    have hlt := index_lt_of_stored hstored
    by_cases hindex : key.index = index
    · simp [Store.vacate, ← hindex, hlt]
    · have hne : index ≠ key.index := fun heq => hindex heq.symm
      simp [Store.vacate, hindex, hne, htidy.mem_free_iff index]
  live_eq := by
    have hcount := countWhere_vacate (fun cell => !cell.deleted) hstored
    simp only [hdeleted, Bool.not_true, Bool.false_eq_true, ↓reduceIte, Nat.add_zero] at hcount
    exact htidy.live_eq.trans (congrArg (· + excess) hcount.symm)

end Tidy

theorem countWhere_le_size (store : Store α) (holds : Cell α → Bool) :
    store.countWhere holds ≤ store.slots.size :=
  Nat.le_trans List.countP_le_length (Nat.le_of_eq Array.length_toList)

/-- A tidy store is full exactly if every slot holds a value and there is no number for another. -/
theorem Tidy.isFull_iff {excess : Nat} (htidy : store.Tidy excess) :
    store.isFull = true ↔
      store.countWhere (fun _ => true) = store.slots.size ∧ 2 ^ 32 ≤ store.slots.size := by
  have hfree : store.free = [] ↔ store.countWhere (fun _ => true) = store.slots.size := by
    rw [countWhere, ← Array.length_toList, List.countP_eq_length]
    constructor
    · intro hfree slot hslot
      obtain ⟨index, hindex, rfl⟩ := Array.mem_iff_getElem.mp (Array.mem_def.mpr hslot)
      cases hcell : store.slots[index].cell with
      | some cell => rfl
      | none =>
          have hmem : index ∈ store.free := (htidy.mem_free_iff index).mpr
            ⟨store.slots[index].generation, by rw [Array.getElem?_eq_getElem hindex, ← hcell]⟩
          rw [hfree] at hmem
          cases hmem
    · intro hfilled
      refine List.eq_nil_iff_forall_not_mem.mpr fun index hindex => ?_
      obtain ⟨generation, hempty⟩ := (htidy.mem_free_iff index).mp hindex
      have hslot := hfilled _ (Array.mem_def.mp (Array.mem_of_getElem? hempty))
      cases hslot
  have hsize : UInt32.size = 2 ^ 32 := rfl
  rw [isFull, Bool.and_eq_true, List.isEmpty_iff, hfree, decide_eq_true_eq, hsize]

section Insertion

theorem place_of_free_nil (hfree : store.free = []) (content : α) :
    store.place content =
      (⟨store.slots.size, 0⟩,
        { store with
          slots := store.slots.push ⟨0, some { content }⟩, live := store.live + 1 }) := by
  simp [place, hfree]

theorem place_of_free_cons {index : Nat} {rest : List Nat} {generation : UInt32}
    (hfree : store.free = index :: rest)
    (hempty : store.slots[index]? = some ⟨generation, none⟩) (content : α) :
    store.place content =
      (⟨index, generation⟩,
        { slots := store.slots.setIfInBounds index ⟨generation, some { content }⟩
          free := rest
          live := store.live + 1 }) := by
  simp [place, hfree, hempty]

/-- Unless the store is full, a new value is placed. -/
theorem insert_eq (hroom : store.isFull = false) (content : α) :
    store.insert content = (.ok (store.place content).1, (store.place content).2) := by
  simp [insert, hroom]

/-- A full store counts a value for which it has no place, and changes nothing else. -/
theorem insert_full (hfull : store.isFull = true) (content : α) :
    store.insert content = (.error .fullStore, { store with live := store.live + 1 }) := by
  simp [insert, hfull]

/-- A store is not full as long as there is a number for another slot. -/
theorem isFull_eq_false (hslots : store.slots.size < 2 ^ 32) : store.isFull = false := by
  have hlt : ¬UInt32.size ≤ store.slots.size := Nat.not_le.mpr hslots
  simp [isFull, hlt]

/-- No store comes to have more slots than there are numbers for them. -/
theorem size_place_le_of_room (hroom : store.isFull = false)
    (hbounded : store.slots.size ≤ 2 ^ 32) (content : α) :
    (store.place content).2.slots.size ≤ 2 ^ 32 := by
  cases hfree : store.free with
  | nil =>
      have hlt : ¬UInt32.size ≤ store.slots.size := by simpa [isFull, hfree] using hroom
      rw [place_of_free_nil hfree, Array.size_push]
      exact Nat.not_le.mp hlt
  | cons index rest =>
      simpa [place, hfree] using hbounded

/-- A new value takes at most one slot more. -/
theorem size_place_le (store : Store α) (content : α) :
    (store.place content).2.slots.size ≤ store.slots.size + 1 := by
  unfold place
  split <;> simp

variable {excess : Nat} (htidy : store.Tidy excess) (content : α)

include htidy

/-- The key of a new value resolved to nothing before. -/
theorem cell?_place_key : store.cell? (store.place content).1 = none := by
  apply Option.ext
  intro found
  rw [cell?_eq_some_iff]
  cases hfree : store.free with
  | nil => simp [place_of_free_nil hfree]
  | cons index rest =>
      obtain ⟨generation, hempty⟩ := (htidy.mem_free_iff index).mp (by simp [hfree])
      simp [place_of_free_cons hfree hempty, hempty]

/-- A new value is stored at its key, live and without references, and no other key resolves to
anything else than before. -/
theorem cell?_place (other : Key) :
    (store.place content).2.cell? other =
      if other = (store.place content).1 then some { content } else store.cell? other := by
  apply Option.ext
  intro found
  obtain ⟨place, generation⟩ := other
  cases hfree : store.free with
  | nil =>
      rw [place_of_free_nil hfree]
      by_cases hplace : place = store.slots.size
      · by_cases hgeneration : generation = 0
        · simp [cell?_eq_some_iff, hplace, hgeneration]
        · have hne : (0 : UInt32) ≠ generation := fun heq => hgeneration heq.symm
          simp [cell?_eq_some_iff, hplace, hgeneration, hne]
      · simp [cell?_eq_some_iff, hplace, Array.getElem?_push]
  | cons index rest =>
      obtain ⟨emptied, hempty⟩ := (htidy.mem_free_iff index).mp (by simp [hfree])
      obtain ⟨hlt, hget⟩ := Array.getElem?_eq_some_iff.mp hempty
      rw [place_of_free_cons hfree hempty]
      by_cases hplace : index = place
      · subst hplace
        by_cases hgeneration : emptied = generation
        · simp [cell?_eq_some_iff, hlt, hgeneration]
        · have hne : generation ≠ emptied := fun heq => hgeneration heq.symm
          simp [cell?_eq_some_iff, hlt, hget, hgeneration, hne]
      · have hne : place ≠ index := fun heq => hplace heq.symm
        simp [cell?_eq_some_iff, hplace, hne]

theorem Tidy.place : (store.place content).2.Tidy excess := by
  cases hfree : store.free with
  | nil =>
      rw [place_of_free_nil hfree]
      refine ⟨htidy.free_nodup, ?_, ?_⟩
      · intro index
        rw [htidy.mem_free_iff index, Array.getElem?_push]
        by_cases hindex : index = store.slots.size
        · simp [hindex]
        · simp [hindex]
      · simp [countWhere, htidy.live_eq, Nat.add_right_comm]
  | cons place rest =>
      obtain ⟨generation, hempty⟩ := (htidy.mem_free_iff place).mp (by simp [hfree])
      have hlt := (Array.getElem?_eq_some_iff.mp hempty).1
      have hnodup := htidy.free_nodup
      rw [hfree, List.nodup_cons] at hnodup
      rw [place_of_free_cons hfree hempty]
      refine ⟨hnodup.2, ?_, ?_⟩
      · intro index
        have hmem := htidy.mem_free_iff index
        rw [hfree, List.mem_cons] at hmem
        by_cases hindex : place = index
        · subst hindex
          simp [hlt, hnodup.1]
        · have hne : index ≠ place := fun heq => hindex heq.symm
          simpa [hindex, hne] using hmem
      · have hcount := countP_setSlot (fun cell : Cell α => !cell.deleted) hempty
          ⟨generation, some { content }⟩
        simp only [Option.any_none, Bool.false_eq_true, ↓reduceIte, Nat.add_zero,
          Option.any_some, Bool.not_false] at hcount
        have hlive := htidy.live_eq
        change store.live + 1 = List.countP _ _ + excess
        rw [hcount, hlive, Nat.add_right_comm]
        rfl

end Insertion

end FormalLanguages.Store
