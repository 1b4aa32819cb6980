/-
# What a table holds is counted entry by entry

Writing under a name puts the new value in the place of the old one, so the values after a write are
the new value with what an erasure leaves, and an erasure takes out just the value under the name.
Whatever is computed from the values alone, regardless of their order, follows a table in this way.
-/

import Mathlib.Data.List.Forall2
import FormalLanguages.Table

namespace FormalLanguages.Table

variable {κ ν : Type} [DecidableEq κ] {table : Table κ ν} {key : κ} {value : ν}

@[simp]
theorem get?_empty (key : κ) : (empty : Table κ ν).get? key = none := rfl

theorem values_insert (table : Table κ ν) (key : κ) (value : ν) :
    (table.insert key value).values = value :: (table.erase key).values := rfl

theorem get?_insert_self (table : Table κ ν) (key : κ) (value : ν) :
    (table.insert key value).get? key = some value := by
  rw [get?_insert, if_pos rfl]

/-- What is written under a name last is what counts. -/
theorem insert_insert (table : Table κ ν) (key : κ) (before value : ν) :
    (table.insert key before).insert key value = table.insert key value := by
  simp [insert, erase]

omit [DecidableEq κ] in
theorem eq_of_entries_eq {table other : Table κ ν} (hentries : table.entries = other.entries) :
    table = other := by
  cases table
  cases other
  cases hentries
  rfl

/-- An erasure takes out nothing if there is nothing. -/
theorem erase_eq_self (hnone : table.get? key = none) : table.erase key = table := by
  apply eq_of_entries_eq
  apply List.filter_eq_self.mpr
  intro entry hentry
  have hne : entry.1 ≠ key := fun heq => by
    have hbne := List.lookup_eq_none_iff.mp hnone entry hentry
    simp [heq] at hbne
  exact decide_eq_true hne

/-- Take out the entries of several keys. -/
def eraseAll (table : Table κ ν) (keys : List κ) : Table κ ν := keys.foldl erase table

theorem entries_eraseAll (table : Table κ ν) (keys : List κ) :
    (table.eraseAll keys).entries = table.entries.filter fun entry => decide (entry.1 ∉ keys) := by
  induction keys generalizing table with
  | nil => simp [eraseAll]
  | cons key rest ih =>
      rw [eraseAll, List.foldl_cons, ← eraseAll, ih]
      simp only [erase, List.filter_filter, List.mem_cons, not_or, Bool.decide_and]
      exact List.filter_congr fun entry _ => Bool.and_comm _ _

/-- What was written under one of the keys is taken out with them. -/
theorem eraseAll_insert {keys : List κ} (hkey : key ∈ keys) (value : ν) :
    (table.insert key value).eraseAll keys = table.eraseAll keys := by
  apply eq_of_entries_eq
  rw [entries_eraseAll, entries_eraseAll, entries_insert, erase,
    List.filter_cons_of_neg (by simpa using hkey), List.filter_filter]
  apply List.filter_congr
  intro entry _
  by_cases hentry : entry.1 ∈ keys
  · simp [hentry]
  · have hne : entry.1 ≠ key := fun heq => hentry (heq ▸ hkey)
    simp [hentry, hne]

theorem eraseAll_eq_self {keys : List κ} (hnone : ∀ key ∈ keys, table.get? key = none) :
    table.eraseAll keys = table := by
  induction keys with
  | nil => rfl
  | cons key rest ih =>
      rw [eraseAll, List.foldl_cons, erase_eq_self (hnone key List.mem_cons_self)]
      exact ih fun other hother => hnone other (List.mem_cons_of_mem key hother)

/-- A name holds one value, and an erasure takes out just this value. -/
theorem values_perm (table : Table κ ν) (key : κ) :
    table.values.Perm ((table.get? key).toList ++ (table.erase key).values) := by
  cases hvalue : table.get? key with
  | none =>
      rw [erase_eq_self hvalue]
      exact .refl _
  | some value =>
      obtain ⟨front, back, hentries, -⟩ := List.lookup_eq_some_iff.mp hvalue
      have hnodup := table.nodup
      rw [hentries, List.map_append, List.map_cons] at hnodup
      obtain ⟨-, hback, hfront⟩ := List.nodup_append.mp hnodup
      have hneFront (entry : κ × ν) (hentry : entry ∈ front) : entry.1 ≠ key :=
        hfront entry.1 (List.mem_map_of_mem hentry) key List.mem_cons_self
      have hneBack (entry : κ × ν) (hentry : entry ∈ back) : entry.1 ≠ key := by
        rintro rfl
        exact (List.nodup_cons.mp hback).1 (List.mem_map.mpr ⟨entry, hentry, rfl⟩)
      have hfilter : (table.erase key).entries = front ++ back := by
        simp only [erase, hentries, List.filter_append, List.filter_cons]
        rw [List.filter_eq_self.mpr fun entry hentry => decide_eq_true (hneFront entry hentry),
          List.filter_eq_self.mpr fun entry hentry => decide_eq_true (hneBack entry hentry)]
        simp
      rw [values, values, hfilter, hentries, List.map_append, List.map_cons, List.map_append]
      exact List.perm_middle

theorem mem_values_of_get? (hvalue : table.get? key = some value) : value ∈ table.values :=
  (table.values_perm key).mem_iff.mpr (by simp [hvalue])

section Matches

variable {μ : Type} {related : ν → μ → Prop} {other : Table κ μ}

/-- Two tables with the same names in the same order, whose values stand in a relation. -/
def Matches (related : ν → μ → Prop) (table : Table κ ν) (other : Table κ μ) : Prop :=
  List.Forall₂ (fun entry entry' => entry.1 = entry'.1 ∧ related entry.2 entry'.2) table.entries
    other.entries

namespace Matches

variable (hmatches : table.Matches related other)

include hmatches

theorem get? (key : κ) : (table.get? key = none ∧ other.get? key = none) ∨
    ∃ value value', table.get? key = some value ∧ other.get? key = some value' ∧
      related value value' := by
  unfold Matches at hmatches
  unfold Table.get?
  generalize table.entries = entries, other.entries = entries' at hmatches
  induction hmatches with
  | nil => exact .inl ⟨rfl, rfl⟩
  | @cons entry entry' rest rest' hentry hrest ih =>
      obtain ⟨name, value⟩ := entry
      obtain ⟨name', value'⟩ := entry'
      obtain ⟨rfl, hvalue⟩ := hentry
      by_cases hname : key = name
      · exact .inr ⟨value, value', by simp [hname], by simp [hname], hvalue⟩
      · have hne : (key == name) = false := beq_false_of_ne hname
        simpa [List.lookup_cons, hne] using ih

omit [DecidableEq κ] in
theorem values : List.Forall₂ related table.values other.values := by
  simp only [Table.values, List.forall₂_map_left_iff, List.forall₂_map_right_iff]
  exact hmatches.imp fun _ _ hentry => hentry.2

omit [DecidableEq κ] in
/-- What is computed of related values in the same way is the same. -/
theorem map_values_eq {β : Type} {compute : ν → β} {compute' : μ → β}
    (hcompute : ∀ value value', related value value' → compute value = compute' value') :
    table.values.map compute = other.values.map compute' := by
  rw [← List.forall₂_eq_eq_eq, List.forall₂_map_left_iff, List.forall₂_map_right_iff]
  exact hmatches.values.imp hcompute

omit [DecidableEq κ] in
/-- A relation may be weakened for the values that a table holds. -/
theorem imp {weaker : ν → μ → Prop}
    (himp : ∀ value ∈ table.values, ∀ value' ∈ other.values,
      related value value' → weaker value value') :
    table.Matches weaker other := by
  have hmem := List.forall₂_iff_get.mp hmatches
  refine List.forall₂_iff_get.mpr ⟨hmem.1, fun place hplace hplace' => ?_⟩
  obtain ⟨hname, hvalue⟩ := hmem.2 place hplace hplace'
  exact ⟨hname, himp _ (List.mem_map_of_mem (List.get_mem _ _)) _
    (List.mem_map_of_mem (List.get_mem _ _)) hvalue⟩

theorem erase (key : κ) : (table.erase key).Matches related (other.erase key) :=
  List.rel_filter (fun _ _ hentry => by simp [hentry.1]) hmatches

theorem insert (key : κ) {value : ν} {value' : μ} (hvalue : related value value') :
    (table.insert key value).Matches related (other.insert key value') :=
  .cons ⟨rfl, hvalue⟩ (hmatches.erase key)

omit [DecidableEq κ] in
theorem symm {inverse : μ → ν → Prop}
    (hinverse : ∀ value value', related value value' → inverse value' value) :
    other.Matches inverse table :=
  List.Forall₂.flip
    (List.Forall₂.imp (fun _ _ hentry => ⟨hentry.1.symm, hinverse _ _ hentry.2⟩) hmatches)

end Matches

/-- A table matches itself if what is under each name is related to itself. -/
theorem matches_refl {related : ν → ν → Prop}
    (hrefl : ∀ key value, table.get? key = some value → related value value) :
    table.Matches related table := by
  refine List.forall₂_same.mpr fun entry hentry => ⟨rfl, hrefl entry.1 entry.2 ?_⟩
  obtain ⟨front, back, hsplit⟩ := List.append_of_mem hentry
  have hnodup := table.nodup
  rw [hsplit, List.map_append, List.map_cons] at hnodup
  refine List.lookup_eq_some_iff.mpr ⟨front, back, hsplit, fun other hother => ?_⟩
  have hne := (List.nodup_append.mp hnodup).2.2 other.1 (List.mem_map_of_mem hother) entry.1
    List.mem_cons_self
  simpa using hne.symm

end Matches

end FormalLanguages.Table
