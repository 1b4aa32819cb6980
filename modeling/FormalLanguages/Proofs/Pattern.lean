/-
# Matching asks for slots that are provided, except for the greatest

A pattern has one slot more than the greatest one that its terms fill.  As long as this can be
counted, every slot that a term fills is below the count.  One more than the greatest word cannot be
counted, and no number of slots that is counted is enough for a slot of that number.  The only fault
of solving constraints is that a slot is asked for that is not provided.
-/

import FormalLanguages.Pattern

namespace FormalLanguages

/-- A constraint that binds a slot below a count, or none. -/
def Constraint.Within (count : Nat) : Constraint → Prop
  | .require _ => True
  | .bind slot _ => slot < count

namespace Constraint

variable {constraint : Constraint} {constraints : List Constraint} {slots : Slots}

theorem Within.mono {count more : Nat} (hwithin : constraint.Within count) (hle : count ≤ more) :
    constraint.Within more := by
  cases constraint with
  | require => trivial
  | bind slot value => exact Nat.lt_of_lt_of_le hwithin hle

theorem length_check (constraint : Constraint) (slots : Slots) :
    (constraint.check slots).2.length = slots.length := by
  cases constraint with
  | require holds => rfl
  | bind slot value =>
      simp only [check]
      split <;> simp

theorem length_solve (constraints : List Constraint) (slots : Slots) :
    (solve constraints slots).2.length = slots.length := by
  induction constraints generalizing slots with
  | nil => rfl
  | cons constraint rest ih =>
      have hlength := length_check constraint slots
      simp only [solve]
      split
      · next after hcheck =>
          rw [hcheck] at hlength
          exact (ih after).trans hlength
      · exact hlength

/-- The only fault of solving constraints is a slot that is asked for and does not exist. -/
theorem exceeds_of_solve {fault : Fault} {last : Slots}
    (hsolve : solve constraints slots = (.error fault, last)) :
    ∃ slot value, .bind slot value ∈ constraints ∧ slots.length ≤ slot ∧
      fault = .outOfBounds slots.length slot := by
  induction constraints generalizing slots with
  | nil => cases hsolve
  | cons constraint rest ih =>
      have hlength := length_check constraint slots
      simp only [solve] at hsolve
      split at hsolve
      · next after hcheck =>
          rw [hcheck] at hlength
          rw [← hlength]
          obtain ⟨slot, value, hmem, hexceeds⟩ := ih hsolve
          exact ⟨slot, value, List.mem_cons_of_mem constraint hmem, hexceeds⟩
      · cases constraint with
        | require holds => cases hsolve
        | bind slot value =>
            simp only [check] at hsolve
            split at hsolve
            · next hmissing =>
                cases hsolve
                exact ⟨slot, value, List.mem_cons_self, List.getElem?_eq_none_iff.mp hmissing, rfl⟩
            · cases hsolve
            · cases hsolve

end Constraint

/-- The greatest number that a slot can have. -/
def greatestSlot : UInt64 := .ofNat (UInt64.size - 1)

theorem toNat_add_one {slot : UInt64} (hslot : slot ≠ greatestSlot) :
    (slot + 1).toNat = slot.toNat + 1 := by
  have hne : slot.toNat ≠ greatestSlot.toNat := fun heq => hslot (UInt64.toNat_inj.mp heq)
  have hlt : slot.toNat < UInt64.size := slot.toNat_lt_size
  have hgreatest : greatestSlot.toNat = UInt64.size - 1 := rfl
  rw [UInt64.toNat_add]
  exact Nat.mod_eq_of_lt (show slot.toNat + 1 < UInt64.size by omega)

section Needed

variable {slots : List (Option UInt64)}

/-- Counting the slots needed never goes down, and from each slot on it is at least one more than
its number as a word. -/
theorem le_foldl_needed {raise : Nat → Option UInt64 → Nat}
    (hle : ∀ needed slot, needed ≤ raise needed slot)
    (hword : ∀ needed slot, (slot + 1).toNat ≤ raise needed (some slot)) (needed : Nat) :
    needed ≤ slots.foldl raise needed ∧
      ∀ slot, some slot ∈ slots → (slot + 1).toNat ≤ slots.foldl raise needed := by
  induction slots generalizing needed with
  | nil => exact ⟨Nat.le_refl needed, fun slot hslot => by cases hslot⟩
  | cons first rest ih =>
      obtain ⟨hraised, hrest⟩ := ih (raise needed first)
      refine ⟨Nat.le_trans (hle needed first) hraised, ?_⟩
      intro slot hslot
      rcases List.mem_cons.mp hslot with rfl | hslot
      · exact Nat.le_trans (hword needed slot) hraised
      · exact hrest slot hslot

/-- The slots of a pattern are enough for every slot that a term of it fills, except for the
greatest of all. -/
theorem lt_slotsNeeded {slot : UInt64} (hslot : some slot ∈ slots) (hless : slot ≠ greatestSlot) :
    slot.toNat < slotsNeeded slots := by
  rw [Nat.lt_iff_add_one_le, ← toNat_add_one hless]
  refine (le_foldl_needed ?_ ?_ 0).2 slot hslot
  · intro needed slot
    cases slot with
    | none => exact Nat.le_refl needed
    | some slot => exact Nat.le_max_left needed (slot + 1).toNat
  · intro needed slot
    exact Nat.le_max_right needed (slot + 1).toNat

/-- No pattern has enough slots for the greatest of all. -/
theorem slotsNeeded_le_greatest (slots : List (Option UInt64)) :
    slotsNeeded slots ≤ greatestSlot.toNat := by
  refine List.foldlRecOn (motive := (· ≤ greatestSlot.toNat)) slots _ (Nat.zero_le _) ?_
  intro needed hneeded slot _
  cases slot with
  | none => exact hneeded
  | some slot =>
      have hlt : (slot + 1).toNat < UInt64.size := (slot + 1).toNat_lt_size
      exact Nat.max_le.mpr ⟨hneeded, Nat.le_sub_one_of_lt hlt⟩

end Needed

end FormalLanguages
