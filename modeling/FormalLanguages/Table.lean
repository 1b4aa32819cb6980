/-
# A small table holds one value to a name

The tables of this library are association lists without repeated keys.  Writing under a key
puts the new entry in front and takes the old one out, so the entries after a write are the new
entry followed by the entries after an erasure.
-/

namespace FormalLanguages

/-- A finite map, as the list of its entries, the last one written first. -/
structure Table (κ ν : Type) where
  entries : List (κ × ν) := []
  nodup : (entries.map Prod.fst).Nodup := by simp

namespace Table

variable {κ ν : Type} [DecidableEq κ]

/-- The table without entries. -/
def empty : Table κ ν := {}

/-- The value under a key. -/
def get? (table : Table κ ν) (key : κ) : Option ν := table.entries.lookup key

/-- Take out the entry of a key. -/
def erase (table : Table κ ν) (key : κ) : Table κ ν where
  entries := table.entries.filter (fun entry => decide (entry.1 ≠ key))
  nodup := (table.entries.filter_sublist.map Prod.fst).nodup table.nodup

/-- Write a value under a key. -/
def insert (table : Table κ ν) (key : κ) (value : ν) : Table κ ν where
  entries := (key, value) :: (table.erase key).entries
  nodup := by
    rw [List.map_cons, List.nodup_cons]
    exact ⟨by simp [erase], (table.erase key).nodup⟩

/-- The values, the one written last first. -/
def values (table : Table κ ν) : List ν := table.entries.map Prod.snd

theorem entries_insert (table : Table κ ν) (key : κ) (value : ν) :
    (table.insert key value).entries = (key, value) :: (table.erase key).entries := rfl

private theorem lookup_filter_ne (entries : List (κ × ν)) (key other : κ) :
    (entries.filter (fun entry => decide (entry.1 ≠ key))).lookup other =
      if other = key then none else entries.lookup other := by
  induction entries with
  | nil => simp
  | cons entry rest ih =>
      obtain ⟨name, value⟩ := entry
      by_cases hname : name = key
      · subst hname
        by_cases hother : other = name
        · simpa [hother] using ih
        · have hne : (other == name) = false := by simpa using hother
          simpa [hother, List.lookup_cons, hne] using ih
      · by_cases hother : other = name
        · subst hother
          simp [hname]
        · have hne : (other == name) = false := by simpa using hother
          simpa [hname, List.lookup_cons, hne] using ih

/-- After an erasure the erased key has no value and every other key has the one it had. -/
theorem get?_erase (table : Table κ ν) (key other : κ) :
    (table.erase key).get? other = if other = key then none else table.get? other :=
  lookup_filter_ne table.entries key other

/-- After a write the written key has the new value and every other key the one it had. -/
theorem get?_insert (table : Table κ ν) (key other : κ) (value : ν) :
    (table.insert key value).get? other =
      if other = key then some value else table.get? other := by
  by_cases h : other = key
  · simp [get?, insert, h]
  · have hne : (other == key) = false := by simpa using h
    have herase := get?_erase table key other
    simp only [h, ↓reduceIte] at herase
    simpa [get?, entries_insert, List.lookup_cons, hne, h] using herase

end Table

end FormalLanguages
