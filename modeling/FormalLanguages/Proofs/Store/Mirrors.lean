/-
# What a ledger says of a store

A store mirrors a ledger if the key of each record resolves to what the record says, and nothing
else is stored.  The lemmas below show that each change of a store is mirrored by a change of one
record, and that what a store lists and counts can be read off its ledger.
-/

import Mathlib.Algebra.Group.Nat.Defs
import FormalLanguages.Proofs.Store.Ledger

namespace FormalLanguages.Store

variable {α : Type} {store : Store α} {ledger : Ledger α} {number : Nat}
  {record other : Record α} {content : α}

/-! ## Where a store puts a new value -/

/-- What a key resolves to is decided by the slots. -/
theorem cell?_congr {after : Store α} (hslots : after.slots = store.slots) (key : Key) :
    after.cell? key = store.cell? key := by
  simp only [cell?, cell, hslots]

/-- A new value goes to a new slot, or to an empty one under the generation of the slot. -/
theorem Tidy.place_key {excess : Nat} (htidy : store.Tidy excess) (content : α) :
    (store.place content).1 = ⟨store.slots.size, 0⟩ ∨
      store.slots[(store.place content).1.index]? =
        some ⟨(store.place content).1.generation, none⟩ := by
  cases hfree : store.free with
  | nil => exact .inl (by rw [place_of_free_nil hfree])
  | cons index rest =>
      obtain ⟨generation, hempty⟩ := (htidy.mem_free_iff index).mp (by simp [hfree])
      exact .inr (by rw [place_of_free_cons hfree hempty, hempty])

/-- An insertion adds at most one slot and leaves the generations of all others. -/
theorem Tidy.place_slots {excess : Nat} (htidy : store.Tidy excess) (content : α) :
    (store.slots.size ≤ (store.place content).2.slots.size ∧
        (store.place content).2.slots.size ≤ store.slots.size + 1) ∧
      ∀ {index slot}, (store.place content).2.slots[index]? = some slot →
        (store.slots[index]?.map Slot.generation) = some slot.generation ∨
          index = store.slots.size ∧ slot.generation = 0 := by
  cases hfree : store.free with
  | nil =>
      rw [place_of_free_nil hfree]
      refine ⟨by simp, fun {index slot} hslot => ?_⟩
      simp only [Array.getElem?_push] at hslot
      split at hslot
      · next hindex => exact .inr ⟨hindex, by cases hslot; rfl⟩
      · exact .inl (by rw [hslot]; rfl)
  | cons place rest =>
      obtain ⟨generation, hempty⟩ := (htidy.mem_free_iff place).mp (by simp [hfree])
      rw [place_of_free_cons hfree hempty]
      refine ⟨by simp, fun {index slot} hslot => .inl ?_⟩
      have hlt := (Array.getElem?_eq_some_iff.mp hempty).1
      simp only [Array.getElem?_setIfInBounds, hlt, ↓reduceIte] at hslot
      split at hslot
      · next hindex =>
          cases hslot
          rw [← hindex, hempty]
          rfl
      · rw [hslot]
        rfl

/-- A new value never goes to the slot of a stored one. -/
theorem Tidy.place_apart {excess : Nat} (htidy : store.Tidy excess) (content : α) {key : Key}
    {cell : Cell α}
    (hstored : store.cell? key = some cell) :
    (store.place content).1.index ≠ key.index := by
  intro hindex
  rcases htidy.place_key content with hnew | hempty
  · have hlt := index_lt_of_stored hstored
    simp only [hnew] at hindex
    omega
  · simp [hindex, cell?_eq_some_iff.mp hstored] at hempty

/-! ## Records and their keys -/

namespace Ledger

theorem mem_idle : record ∈ ledger.idle ↔ record ∈ ledger.records ∧ record.idle = true := by
  rw [idle, List.mem_insertionSort, List.mem_filter]

theorem map_key_write (hrecord : ledger.records[number]? = some record) (other : Record α)
    (hkey : other.key = record.key) :
    (ledger.write number other).records.map Record.key = ledger.records.map Record.key := by
  obtain ⟨hlt, rfl⟩ := List.getElem?_eq_some_iff.mp hrecord
  have hlt : number < (ledger.records.map Record.key).length := by simpa
  have hsame : (ledger.records.map Record.key)[number] = other.key := by
    rw [List.getElem_map, hkey]
  rw [write, List.map_set, ← hsame, List.set_getElem_self]

variable (hnodup : (ledger.records.map Record.key).Nodup)

include hnodup

/-- A record is known by its key. -/
theorem eq_of_key_eq (hrecord : record ∈ ledger.records) (hother : other ∈ ledger.records)
    (hkey : record.key = other.key) : record = other :=
  List.inj_on_of_nodup_map hnodup hrecord hother hkey

/-- Writing over a record replaces it wherever its key stands. -/
theorem write_eq_map (hrecord : ledger.records[number]? = some record) (other : Record α) :
    (ledger.write number other).records =
      ledger.records.map fun found => if found.key = record.key then other else found := by
  obtain ⟨hlt, rfl⟩ := List.getElem?_eq_some_iff.mp hrecord
  apply List.ext_getElem (by simp [write])
  intro index hleft hright
  have hindex : index < ledger.records.length := by simpa [write] using hleft
  have hkeys : ledger.records[index].key = ledger.records[number].key ↔ index = number := by
    have hleft : index < (ledger.records.map Record.key).length := by simpa
    have hright : number < (ledger.records.map Record.key).length := by simpa
    have hinj : (ledger.records.map Record.key)[index] = (ledger.records.map Record.key)[number] ↔
        index = number := hnodup.getElem_inj_iff
    simpa using hinj
  simp only [write, List.getElem_set, List.getElem_map, hkeys, eq_comm (a := number)]

theorem mem_write (hrecord : ledger.records[number]? = some record) {found : Record α} :
    found ∈ (ledger.write number other).records ↔
      found = other ∨ found ∈ ledger.records ∧ found.key ≠ record.key := by
  have hmem := List.mem_of_getElem? hrecord
  rw [write_eq_map hnodup hrecord]
  grind

end Ledger

/-! ## Stores that a ledger describes -/

/-- A store in which the keys of a ledger resolve to what the ledger says. -/
structure Mirrors (store : Store α) (ledger : Ledger α) : Prop where
  /-- What was refused is counted as live. -/
  tidy : store.Tidy ledger.refused
  nodup : (ledger.records.map Record.key).Nodup
  cell?_eq : ∀ record ∈ ledger.records, store.cell? record.key = record.current
  /-- Whatever is stored was inserted. -/
  recorded : ∀ {key cell}, store.cell? key = some cell → key ∈ ledger.records.map Record.key
  removed : ∀ record ∈ ledger.records, record.reclaimed = true → record.cell.deleted = true
  placed : ∀ record ∈ ledger.records, record.key.index < store.slots.size
  slots_le : store.slots.size ≤ ledger.records.length
  /-- There are no more slots than numbers of 32 bits. -/
  slots_bounded : store.slots.size ≤ 2 ^ 32
  /-- As long as there is a number for another slot, nothing has been refused. -/
  refused_eq : store.slots.size < 2 ^ 32 → ledger.refused = 0
  /-- The generation of a slot says how often it was emptied. -/
  generation_eq : ∀ {index slot}, store.slots[index]? = some slot →
    slot.generation.toNat = ledger.emptied index
  /-- The generations of reclaimed records have passed. -/
  passed : ∀ record ∈ ledger.records, record.reclaimed = true →
    record.key.generation.toNat < ledger.emptied record.key.index

namespace Mirrors

theorem empty : Mirrors (Store.empty : Store α) {} where
  tidy := tidy_empty
  nodup := List.nodup_nil
  cell?_eq := by simp
  recorded := by simp
  removed := by simp
  placed := by simp
  slots_le := Nat.le_refl _
  slots_bounded := Nat.zero_le _
  refused_eq _ := rfl
  generation_eq := by simp [Store.empty]
  passed := by simp

variable (hmirrors : Mirrors store ledger)

include hmirrors

theorem stored (hrecord : record ∈ ledger.records) (hstored : record.reclaimed = false) :
    store.cell? record.key = some record.cell := by
  rw [hmirrors.cell?_eq record hrecord, Record.current, hstored]
  rfl

/-- What is stored has a record that is not reclaimed. -/
theorem exists_record {key : Key} {cell : Cell α} (hcell : store.cell? key = some cell) :
    ∃ record ∈ ledger.records, record.key = key ∧ record.reclaimed = false ∧
      record.cell = cell := by
  obtain ⟨record, hrecord, rfl⟩ := List.mem_map.mp (hmirrors.recorded hcell)
  rw [hmirrors.cell?_eq record hrecord, Record.current] at hcell
  cases hreclaimed : record.reclaimed with
  | false => exact ⟨record, hrecord, rfl, hreclaimed, by simpa [hreclaimed] using hcell⟩
  | true => simp [hreclaimed] at hcell

/-- Replacing a record by another one of its key, where the key comes to resolve to what the new
record says and the generations still say how often the slots were emptied. -/
theorem write (hrecord : ledger.records[number]? = some record) (hkey : other.key = record.key)
    {after : Store α} (htidy : after.Tidy ledger.refused)
    (hsize : after.slots.size = store.slots.size)
    (hcell : ∀ key, after.cell? key = if key = record.key then other.current else store.cell? key)
    (hgeneration : ∀ {index slot}, after.slots[index]? = some slot →
      slot.generation.toNat = (ledger.write number other).emptied index)
    (hgrown : ∀ index, ledger.emptied index ≤ (ledger.write number other).emptied index)
    (hreclaimed : other.reclaimed = true → other.cell.deleted = true ∧
      record.key.generation.toNat < (ledger.write number other).emptied record.key.index) :
    Mirrors after (ledger.write number other) := by
  have hmem := List.mem_of_getElem? hrecord
  have hkeys := Ledger.map_key_write hrecord other hkey
  have hfound {found : Record α} (hfound : found ∈ (ledger.write number other).records) :
      found = other ∨ found ∈ ledger.records ∧ found.key ≠ record.key :=
    (Ledger.mem_write hmirrors.nodup hrecord).mp hfound
  refine
    { tidy := htidy
      nodup := hkeys ▸ hmirrors.nodup
      cell?_eq := fun found h => ?resolved
      recorded := fun {key _} hstored => ?recorded
      removed := fun found h hgone => ?removed
      placed := fun found h => ?placed
      slots_le := by simpa [hsize, Ledger.write] using hmirrors.slots_le
      slots_bounded := hsize ▸ hmirrors.slots_bounded
      refused_eq := hsize ▸ hmirrors.refused_eq
      generation_eq := hgeneration
      passed := fun found h hgone => ?passed }
  case resolved =>
    rw [hcell]
    rcases hfound h with rfl | ⟨h, hne⟩
    · rw [if_pos hkey]
    · rw [if_neg hne, hmirrors.cell?_eq found h]
  case recorded =>
    rw [hcell] at hstored
    rw [hkeys]
    split at hstored
    · next heq => exact heq ▸ List.mem_map_of_mem hmem
    · exact hmirrors.recorded hstored
  case removed =>
    rcases hfound h with rfl | ⟨h, -⟩
    · exact (hreclaimed hgone).1
    · exact hmirrors.removed found h hgone
  case placed =>
    rw [hsize]
    rcases hfound h with rfl | ⟨h, -⟩
    · exact hkey ▸ hmirrors.placed record hmem
    · exact hmirrors.placed found h
  case passed =>
    rcases hfound h with rfl | ⟨h, -⟩
    · rw [hkey]
      exact (hreclaimed hgone).2
    · exact Nat.lt_of_lt_of_le (hmirrors.passed found h hgone) (hgrown _)

/-- Changing the cell of a record and of its key alike. -/
theorem amend (hrecord : ledger.records[number]? = some record)
    (hstored : record.reclaimed = false) {cell : Cell α} {after : Store α}
    (htidy : after.Tidy ledger.refused) (hslots : after.slots = (store.put record.key cell).slots) :
    Mirrors after (ledger.amend number record cell) := by
  have hcell := hmirrors.stored (List.mem_of_getElem? hrecord) hstored
  have hcounted := Ledger.emptied_amend hrecord cell
  have hkey : { record with cell }.key = record.key := rfl
  refine hmirrors.write hrecord hkey htidy (by simp [hslots, put]) (fun key => ?resolved)
    (fun {index slot} hslot => ?generation) (fun index => (hcounted index).ge)
    fun hreclaimed => by cases hstored.symm.trans hreclaimed
  case resolved =>
    rw [cell?_congr hslots, cell?_put hcell, Record.current, hstored]
    rfl
  case generation =>
    refine Eq.trans ?_ (hcounted index).symm
    simp only [hslots, put, Array.getElem?_setIfInBounds, index_lt_of_stored hcell,
      ↓reduceIte] at hslot
    split at hslot
    · next hindex =>
        cases hslot
        have hgeneration := hmirrors.generation_eq (cell?_eq_some_iff.mp hcell)
        exact hindex ▸ hgeneration
    · exact hmirrors.generation_eq hslot

/-- Reclaiming an idle record and emptying its slot, unless the generation of the slot wraps. -/
theorem retire (hrecord : ledger.records[number]? = some record) (hidle : record.idle = true)
    (hspared : (ledger.write number record.retired).emptied record.key.index < 2 ^ 32) :
    Mirrors (store.vacate record.key) (ledger.write number record.retired) := by
  have hstored := Record.reclaimed_of_idle hidle
  have hcell := hmirrors.stored (List.mem_of_getElem? hrecord) hstored
  have hdeleted : record.cell.deleted = true := by
    simp only [Record.idle, Bool.and_eq_true] at hidle
    exact hidle.2.1
  have hbefore : record.key.generation.toNat = ledger.emptied record.key.index :=
    hmirrors.generation_eq (cell?_eq_some_iff.mp hcell)
  have hcounted (index : Nat) : (ledger.write number record.retired).emptied index =
      ledger.emptied index + if record.key.index = index then 1 else 0 := by
    simpa [hstored, Record.retired] using Ledger.emptied_write hrecord record.retired index
  have hkey : record.retired.key = record.key := rfl
  refine hmirrors.write hrecord hkey (hmirrors.tidy.vacate hcell hdeleted)
    (by simp [Store.vacate]) (cell?_vacate hcell) (fun {index slot} hslot => ?generation)
    (fun index => hcounted index ▸ Nat.le_add_right _ _) fun _ => ⟨hdeleted, ?passed⟩
  case generation =>
    simp only [Store.vacate, Array.getElem?_setIfInBounds, index_lt_of_stored hcell,
      ↓reduceIte] at hslot
    rw [hcounted] at hspared ⊢
    split at hslot
    · next hindex =>
        cases hslot
        simp only [← hindex, ↓reduceIte] at hspared ⊢
        rw [UInt32.toNat_add, hbefore]
        exact Nat.mod_eq_of_lt hspared
    · next hindex => simpa [hindex] using hmirrors.generation_eq hslot
  case passed =>
    rw [hcounted, hbefore, if_pos rfl]
    exact Nat.lt_succ_self _

/-- No insertion before had the key of a new value. -/
theorem fresh (content : α) :
    (store.place content).1 ∉ ledger.records.map Record.key := by
  intro hmem
  obtain ⟨record, hrecord, hkey⟩ := List.mem_map.mp hmem
  rcases hmirrors.tidy.place_key content with hnew | hempty
  · have hlt := hmirrors.placed record hrecord
    rw [hkey, hnew] at hlt
    exact Nat.lt_irrefl _ hlt
  · rw [← hkey] at hempty
    cases hreclaimed : record.reclaimed with
    | false =>
        rw [cell?_eq_some_iff.mp (hmirrors.stored hrecord hreclaimed)] at hempty
        simp at hempty
    | true =>
        have hpassed := hmirrors.passed record hrecord hreclaimed
        rw [← hmirrors.generation_eq hempty] at hpassed
        exact Nat.lt_irrefl _ hpassed

theorem place (hroom : store.isFull = false) (content : α) :
    Mirrors (store.place content).2
      { ledger with
        records :=
          ledger.records ++ [{ key := (store.place content).1, cell := { content } }] } := by
  have hfresh := hmirrors.fresh content
  have hkey := cell?_place_key hmirrors.tidy content
  have hcell := cell?_place hmirrors.tidy content
  obtain ⟨⟨hsize, hsize'⟩, hslots⟩ := hmirrors.tidy.place_slots content
  have hcounted (index : Nat) :
      Ledger.emptied { ledger with
        records := ledger.records ++ [{ key := (store.place content).1, cell := { content } }] }
        index = ledger.emptied index := by
    simp [Ledger.emptied]
  refine
    { tidy := hmirrors.tidy.place content
      nodup := ?nodup
      cell?_eq := fun found hfound => ?resolved
      recorded := fun {key _} hstored => ?recorded
      removed := fun found hfound hreclaimed => ?removed
      placed := fun found hfound => ?placed
      slots_le := ?slots
      slots_bounded := size_place_le_of_room hroom hmirrors.slots_bounded content
      refused_eq := fun hlt => hmirrors.refused_eq (Nat.lt_of_le_of_lt hsize hlt)
      generation_eq := fun {index slot} hslot => ?generation
      passed := fun found hfound hreclaimed => ?passed }
  case nodup =>
    rw [List.map_append]
    exact hmirrors.nodup.append (List.nodup_singleton _) (by simpa using hfresh)
  case resolved =>
    rw [hcell]
    rcases List.mem_append.mp hfound with hfound | hfound
    · have hne : found.key ≠ (store.place content).1 := fun heq =>
        hfresh (heq ▸ List.mem_map_of_mem hfound)
      rw [if_neg hne, hmirrors.cell?_eq found hfound]
    · cases List.mem_singleton.mp hfound
      simp [Record.current]
  case recorded =>
    rw [hcell] at hstored
    split at hstored
    · next heq => simp [heq]
    · have hrecorded := hmirrors.recorded hstored
      rw [List.map_append]
      exact List.mem_append_left _ hrecorded
  case removed =>
    rcases List.mem_append.mp hfound with hfound | hfound
    · exact hmirrors.removed found hfound hreclaimed
    · cases List.mem_singleton.mp hfound
      cases hreclaimed
  case placed =>
    rcases List.mem_append.mp hfound with hfound | hfound
    · exact Nat.lt_of_lt_of_le (hmirrors.placed found hfound) hsize
    · cases List.mem_singleton.mp hfound
      exact index_lt_of_stored ((hcell _).trans (if_pos rfl))
  case slots =>
    have hle := hmirrors.slots_le
    simp only [List.length_append, List.length_singleton]
    omega
  case generation =>
    rw [hcounted]
    rcases hslots hslot with hbefore | ⟨rfl, hzero⟩
    · obtain ⟨before, hbefore, heq⟩ := Option.map_eq_some_iff.mp hbefore
      rw [← heq]
      exact hmirrors.generation_eq hbefore
    · have hnone : ledger.emptied store.slots.size = 0 := by
        refine List.countP_eq_zero.mpr fun record hrecord => ?_
        have hlt := hmirrors.placed record hrecord
        simp [Nat.ne_of_lt hlt]
      rw [hzero, hnone]
      rfl
  case passed =>
    rw [hcounted]
    rcases List.mem_append.mp hfound with hfound | hfound
    · exact hmirrors.passed found hfound hreclaimed
    · cases List.mem_singleton.mp hfound
      cases hreclaimed

/-- A value that is refused is counted by the store and by the ledger. -/
theorem refuse (hfull : store.isFull = true) :
    Mirrors { store with live := store.live + 1 }
      { ledger with refused := ledger.refused + 1 } where
  tidy := {
    free_nodup := hmirrors.tidy.free_nodup
    mem_free_iff := hmirrors.tidy.mem_free_iff
    live_eq := congrArg (· + 1) hmirrors.tidy.live_eq }
  nodup := hmirrors.nodup
  cell?_eq := hmirrors.cell?_eq
  recorded := hmirrors.recorded
  removed := hmirrors.removed
  placed := hmirrors.placed
  slots_le := hmirrors.slots_le
  slots_bounded := hmirrors.slots_bounded
  refused_eq hlt := by
    have hroom : store.isFull = false := isFull_eq_false hlt
    cases hfull.symm.trans hroom
  generation_eq := hmirrors.generation_eq
  passed := hmirrors.passed

/-! ## What is listed and counted -/

theorem mem_keysWhere (holds : Cell α → Bool) {key : Key} :
    key ∈ store.keysWhere holds ↔
      ∃ record ∈ ledger.records, record.key = key ∧ record.reclaimed = false ∧
        holds record.cell = true := by
  rw [Store.mem_keysWhere]
  constructor
  · rintro ⟨cell, hcell, hholds⟩
    obtain ⟨record, hrecord, hkey, hstored, rfl⟩ := hmirrors.exists_record hcell
    exact ⟨record, hrecord, hkey, hstored, hholds⟩
  · rintro ⟨record, hrecord, rfl, hstored, hholds⟩
    exact ⟨record.cell, hmirrors.stored hrecord hstored, hholds⟩

theorem nodup_filter (holds : Record α → Bool) :
    ((ledger.records.filter holds).map Record.key).Nodup :=
  hmirrors.nodup.sublist (List.filter_sublist.map Record.key)

theorem nodup_idle : (ledger.idle.map Record.key).Nodup :=
  (((List.perm_insertionSort _ _).map Record.key).nodup_iff).mpr
    (hmirrors.nodup_filter Record.idle)

/-- The values that may be reclaimed are listed by their slots. -/
theorem reclaimable_eq : store.reclaimable = ledger.idle.map Record.key := by
  have hsorted : (ledger.idle.map Record.key).Pairwise fun first second =>
      first.index ≤ second.index := by
    rw [List.pairwise_map]
    exact List.pairwise_insertionSort _ _
  have hmem (key : Key) : key ∈ store.reclaimable ↔ key ∈ ledger.idle.map Record.key := by
    rw [Store.reclaimable_eq, hmirrors.mem_keysWhere]
    simp only [List.mem_map, Ledger.mem_idle, Record.idle, Bool.and_eq_true, Bool.not_eq_true']
    grind
  -- No two of the keys share a slot, so the order of the slots leaves nothing open.
  have hstrict : (ledger.idle.map Record.key).Pairwise fun first second =>
      first.index < second.index := by
    refine (hsorted.and hmirrors.nodup_idle).imp_of_mem
      fun {first second} hfirst hsecond hboth => ?_
    refine Nat.lt_of_le_of_ne hboth.1 fun hindex => hboth.2 ?_
    obtain ⟨cell, hcell, -⟩ := (Store.mem_keysWhere _).mp ((hmem first).mpr hfirst)
    obtain ⟨cell', hcell', -⟩ := (Store.mem_keysWhere _).mp ((hmem second).mpr hsecond)
    exact key_eq_of_index_eq hcell hcell' hindex
  have hasymm : Std.Antisymm fun first second : Key => first.index < second.index :=
    ⟨fun _ _ hlt hlt' => absurd (hlt.trans hlt') (Nat.lt_irrefl _)⟩
  have hirrefl : Std.Irrefl fun first second : Key => first.index < second.index :=
    ⟨fun _ => Nat.lt_irrefl _⟩
  exact (pairwise_keysWhere _).eq_of_mem_iff hstrict hmem

/-- The values that count as live are the insertions whose values have not been removed, and those
that were refused. -/
theorem live_eq : store.live = ledger.live := by
  have hperm : (store.keysWhere fun cell => !cell.deleted).Perm
      ((ledger.records.filter fun record => !record.cell.deleted).map Record.key) := by
    refine (List.perm_ext_iff_of_nodup (nodup_keysWhere _) (hmirrors.nodup_filter _)).mpr
      fun key => ?_
    rw [hmirrors.mem_keysWhere]
    simp only [List.mem_map, List.mem_filter]
    constructor
    · rintro ⟨record, hrecord, hkey, -, hlive⟩
      exact ⟨record, ⟨hrecord, hlive⟩, hkey⟩
    · rintro ⟨record, ⟨hrecord, hlive⟩, hkey⟩
      refine ⟨record, hrecord, hkey, Bool.eq_false_iff.mpr fun hreclaimed => ?_, hlive⟩
      simp [hmirrors.removed record hrecord hreclaimed] at hlive
  rw [hmirrors.tidy.live_eq, ← length_keysWhere, hperm.length_eq, List.length_map, Ledger.live,
    List.countP_eq_length_filter]

/-- The store is full exactly if as many values are stored as there are numbers for slots. -/
theorem isFull_iff : store.isFull = true ↔ 2 ^ 32 ≤ ledger.stored := by
  have hperm : (store.keysWhere fun _ => true).Perm
      ((ledger.records.filter fun record => !record.reclaimed).map Record.key) := by
    refine (List.perm_ext_iff_of_nodup (nodup_keysWhere _) (hmirrors.nodup_filter _)).mpr
      fun key => ?_
    simp only [hmirrors.mem_keysWhere, List.mem_map, List.mem_filter, Bool.not_eq_true']
    grind
  have hstored : store.countWhere (fun _ => true) = ledger.stored := by
    rw [← length_keysWhere, hperm.length_eq, List.length_map, Ledger.stored,
      List.countP_eq_length_filter]
  rw [← hstored, hmirrors.tidy.isFull_iff]
  have hbounded := hmirrors.slots_bounded
  have hle := store.countWhere_le_size fun _ => true
  omega

end Mirrors

/-! ## Reclaiming one after the other -/

namespace Ledger

/-- Mark the records of some keys as reclaimed. -/
def retire (ledger : Ledger α) (keys : List Key) : Ledger α :=
  ledger.mark fun record => decide (record.key ∈ keys)

theorem map_key_mark (ledger : Ledger α) (holds : Record α → Bool) :
    (ledger.mark holds).records.map Record.key = ledger.records.map Record.key := by
  rw [mark, List.map_map]
  apply List.map_congr_left
  intro record _
  simp only [Function.comp_apply]
  split <;> rfl

theorem map_key_retire (ledger : Ledger α) (keys : List Key) :
    (ledger.retire keys).records.map Record.key = ledger.records.map Record.key :=
  ledger.map_key_mark _

theorem emptied_le_retire (ledger : Ledger α) (keys : List Key) (index : Nat) :
    ledger.emptied index ≤ (ledger.retire keys).emptied index :=
  emptied_le_mark ledger _ index

theorem retire_nil (ledger : Ledger α) : ledger.retire [] = ledger := by
  simp [retire, mark]

theorem retire_cons (ledger : Ledger α) (key : Key) (keys : List Key) :
    ledger.retire (key :: keys) = (ledger.retire [key]).retire keys := by
  refine Ledger.ext ?_ rfl
  simp only [retire, mark, List.map_map]
  apply List.map_congr_left
  intro record _
  by_cases hkey : record.key = key
  · simp [hkey, Record.retired]
  · simp [hkey]

theorem write_retired (hnodup : (ledger.records.map Record.key).Nodup)
    (hrecord : ledger.records[number]? = some record) :
    ledger.write number record.retired = ledger.retire [record.key] := by
  refine Ledger.ext ?_ rfl
  rw [write_eq_map hnodup hrecord record.retired]
  apply List.map_congr_left
  intro found hfound
  simp only [List.mem_singleton, decide_eq_true_eq]
  split
  · next hkey => rw [eq_of_key_eq hnodup hfound (List.mem_of_getElem? hrecord) hkey]
  · rfl

/-- The idle records are marked alike by their keys and one by one. -/
theorem retire_idle (hnodup : (ledger.records.map Record.key).Nodup) :
    ledger.retire (ledger.idle.map Record.key) = ledger.mark Record.idle := by
  refine Ledger.ext ?_ rfl
  apply List.map_congr_left
  intro record hrecord
  have hkey : record.key ∈ ledger.idle.map Record.key ↔ record.idle = true := by
    constructor
    · intro hmem
      obtain ⟨other, hother, heq⟩ := List.mem_map.mp hmem
      obtain ⟨hmem, hidle⟩ := mem_idle.mp hother
      exact eq_of_key_eq hnodup hmem hrecord heq ▸ hidle
    · exact fun hidle => List.mem_map_of_mem (mem_idle.mpr ⟨hrecord, hidle⟩)
  simp only [hkey, decide_eq_true_eq]

end Ledger

/-- Values that may be reclaimed can be reclaimed in turn, whatever their order. -/
theorem Mirrors.reclaimAll {found : List (Record α)} (hmirrors : Mirrors store ledger)
    (hfound : ∀ record ∈ found, record ∈ ledger.records ∧ record.idle = true)
    (hnodup : (found.map Record.key).Nodup)
    (hspared : ∀ index, (ledger.retire (found.map Record.key)).emptied index < 2 ^ 32) :
    ∃ after, store.reclaimAll (found.map Record.key) =
        .ok (found.map fun record => record.cell.content, after) ∧
      Mirrors after (ledger.retire (found.map Record.key)) := by
  induction found generalizing store ledger with
  | nil => exact ⟨store, rfl, (Ledger.retire_nil ledger).symm ▸ hmirrors⟩
  | cons record rest ih =>
      rw [List.map_cons, Ledger.retire_cons] at hspared
      rw [List.map_cons, List.nodup_cons] at hnodup
      obtain ⟨hrecord, hidle⟩ := hfound record List.mem_cons_self
      obtain ⟨number, hnumber⟩ := List.mem_iff_getElem?.mp hrecord
      have hwrite := Ledger.write_retired hmirrors.nodup hnumber
      have hretired : Mirrors (store.vacate record.key) (ledger.retire [record.key]) := by
        rw [← hwrite]
        refine hmirrors.retire hnumber hidle (Nat.lt_of_le_of_lt ?_ (hspared record.key.index))
        rw [hwrite]
        exact Ledger.emptied_le_retire _ _ _
      have hrest : ∀ other ∈ rest,
          other ∈ (ledger.retire [record.key]).records ∧ other.idle = true := by
        intro other hother
        have hmem := hfound other (List.mem_cons_of_mem record hother)
        have hne : other.key ≠ record.key := fun heq =>
          hnodup.1 (heq ▸ List.mem_map_of_mem hother)
        exact ⟨List.mem_map.mpr ⟨other, hmem.1, by simp [hne]⟩, hmem.2⟩
      obtain ⟨after, hafter, hmirrors'⟩ := ih hretired hrest hnodup.2 hspared
      have hstored := hmirrors.stored hrecord (Record.reclaimed_of_idle hidle)
      simp only [Record.idle, Bool.and_eq_true, beq_iff_eq] at hidle
      refine ⟨after, ?_, by rw [List.map_cons, Ledger.retire_cons]; exact hmirrors'⟩
      simp [Store.reclaimAll, reclaim_eq hstored hidle.2.1 hidle.2.2, hafter]

/-- A sweep succeeds, returns the last values of all it may reclaim, and reclaims these. -/
theorem Mirrors.sweep (hmirrors : Mirrors store ledger)
    (hspared : ∀ index, (ledger.retire (ledger.idle.map Record.key)).emptied index < 2 ^ 32) :
    ∃ after, store.sweep = .ok (ledger.idle.map fun record => record.cell.content, after) ∧
      Mirrors after (ledger.retire (ledger.idle.map Record.key)) := by
  unfold Store.sweep
  rw [hmirrors.reclaimable_eq]
  exact hmirrors.reclaimAll (fun record hrecord => Ledger.mem_idle.mp hrecord)
    hmirrors.nodup_idle hspared

end FormalLanguages.Store
