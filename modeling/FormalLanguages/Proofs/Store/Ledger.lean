/-
# A store is a ledger of insertions

Seen through its keys, a store is a plain list of what was inserted into it.  The record of an
insertion carries the key that was handed out, the value with its references and its mark of
removal, and whether it has been reclaimed; a call concerns one record and never another.  Slots,
their generations and the order in which they are used again do not show.

What makes this true is that a key is never handed out twice.  A slot counts in its generation how
often it was emptied, so every reclaimed record of a slot has a smaller generation than the slot,
for as long as the count does not wrap.
-/

import Mathlib.Data.List.Sort
import FormalLanguages.Proofs.Store
import FormalLanguages.Store.Session

namespace FormalLanguages.Store

variable {α : Type}

/-- What holds before a call, and after it wherever it succeeds, holds of what it leaves behind. -/
theorem conclude_induction {σ β : Type} (holds : σ → Prop) {before : σ}
    {outcome : Except Fault (β × σ)} (hbefore : holds before)
    (hafter : ∀ result after, outcome = .ok (result, after) → holds after) :
    holds (conclude before outcome).2 := by
  cases outcome with
  | error fault => exact hbefore
  | ok result => exact hafter result.1 result.2 rfl

/-- What a ledger says about one insertion.  The cell of a reclaimed value is its last one. -/
structure Record (α : Type) where
  key : Key
  cell : Cell α
  reclaimed : Bool := false
  deriving DecidableEq, Repr

namespace Record

/-- What the key of a record resolves to. -/
def current (record : Record α) : Option (Cell α) :=
  if record.reclaimed then none else some record.cell

/-- Whether the value has been removed and may be reclaimed. -/
def idle (record : Record α) : Bool :=
  !record.reclaimed && (record.cell.deleted && record.cell.references == 0)

/-- The record of a value after its reclaim. -/
def retired (record : Record α) : Record α := { record with reclaimed := true }

theorem reclaimed_of_idle {record : Record α} (hidle : record.idle = true) :
    record.reclaimed = false := by
  simp_all [idle]

end Record

/-- The insertions into a store, in their order, and how many values were refused because the store
was full. -/
@[ext]
structure Ledger (α : Type) where
  records : List (Record α) := []
  refused : Nat := 0
  deriving DecidableEq, Repr

namespace Ledger

/-- The record of an insertion that has not been reclaimed. -/
def record (ledger : Ledger α) (number : Nat) : Except Fault (Record α) :=
  match ledger.records[number]? with
  | none => .error (.outOfBounds ledger.records.length number)
  | some record => if record.reclaimed then .error (.staleKey record.key) else .ok record

/-- Replace the record of an insertion. -/
def write (ledger : Ledger α) (number : Nat) (record : Record α) : Ledger α :=
  { ledger with records := ledger.records.set number record }

/-- Replace the cell of an insertion. -/
def amend (ledger : Ledger α) (number : Nat) (record : Record α) (cell : Cell α) : Ledger α :=
  ledger.write number { record with cell }

/-- Mark some of the records as reclaimed. -/
def mark (ledger : Ledger α) (holds : Record α → Bool) : Ledger α :=
  { ledger with
    records := ledger.records.map fun record => if holds record then record.retired else record }

/-- The records that may be reclaimed, in the order of their slots. -/
def idle (ledger : Ledger α) : List (Record α) :=
  (ledger.records.filter Record.idle).insertionSort fun first second =>
    first.key.index ≤ second.key.index

/-- How often a slot was emptied. -/
def emptied (ledger : Ledger α) (index : Nat) : Nat :=
  ledger.records.countP fun record => record.reclaimed && record.key.index == index

/-- How many values are stored. -/
def stored (ledger : Ledger α) : Nat := ledger.records.countP fun record => !record.reclaimed

/-- How many values count as live: those that have not been removed, and those that were refused. -/
def live (ledger : Ledger α) : Nat :=
  ledger.records.countP (fun record => !record.cell.deleted) + ledger.refused

/-- Answer one call.  The ledger is told which keys the store hands out, and knows nothing else of
it.  When as many values are stored as there are numbers for slots, it refuses another one. -/
def perform (keys : List Key) (ledger : Ledger α) : Call α → Except Fault (Reply α) × Ledger α
  | .insert content =>
      if 2 ^ 32 ≤ ledger.stored then
        (.error .fullStore, { ledger with refused := ledger.refused + 1 })
      else
        match keys[ledger.records.length]? with
        | some key =>
            (.ok (.key key),
              { ledger with records := ledger.records ++ [{ key, cell := { content } }] })
        | none => (.error (.outOfBounds keys.length ledger.records.length), ledger)
  | .get number => conclude ledger do
      let record ← ledger.record number
      return (.content record.cell.content, ledger)
  | .set number content => conclude ledger do
      let record ← ledger.record number
      return (.done, ledger.amend number record { record.cell with content })
  | .hold number => conclude ledger do
      let record ← ledger.record number
      return (.done, ledger.amend number record
        { record.cell with references := record.cell.references + 1 })
  | .release number => conclude ledger do
      let record ← ledger.record number
      if record.cell.references = 0 then .error (.unheldRelease record.key)
      else
        return (.done, ledger.amend number record
          { record.cell with references := record.cell.references - 1 })
  | .references number => conclude ledger do
      let record ← ledger.record number
      return (.count record.cell.references, ledger)
  | .isDeleted number => conclude ledger do
      let record ← ledger.record number
      return (.truth record.cell.deleted, ledger)
  | .tombstone number => conclude ledger do
      let record ← ledger.record number
      if record.cell.deleted then return (.truth false, ledger)
      else return (.truth true, ledger.amend number record { record.cell with deleted := true })
  | .reclaim number => conclude ledger do
      let record ← ledger.record number
      if record.cell.deleted = false then .error (.liveReclaim record.key)
      else if record.cell.references ≠ 0 then .error (.referencedReclaim record.key)
      else return (.content record.cell.content, ledger.write number record.retired)
  | .reclaimable => (.ok (.keys (ledger.idle.map Record.key)), ledger)
  | .sweep =>
      (.ok (.contents (ledger.idle.map fun record => record.cell.content)), ledger.mark Record.idle)
  | .size => (.ok (.count ledger.live), ledger)

/-- Answer calls in order. -/
def run (keys : List Key) (ledger : Ledger α) :
    List (Call α) → List (Except Fault (Reply α)) × Ledger α
  | [] => ([], ledger)
  | call :: rest =>
      let (reply, after) := ledger.perform keys call
      let (replies, last) := after.run keys rest
      (reply :: replies, last)

variable {ledger after : Ledger α} {number : Nat} {record : Record α}

theorem record_eq_ok :
    ledger.record number = .ok record ↔
      ledger.records[number]? = some record ∧ record.reclaimed = false := by
  unfold Ledger.record
  split
  · simp_all
  · next found hfound =>
      cases hreclaimed : found.reclaimed with
      | true => grind
      | false => grind

/-! ## How often a slot was emptied -/

/-- Replacing a record changes the count of a slot by what the two records contribute. -/
theorem emptied_write (hrecord : ledger.records[number]? = some record) (other : Record α)
    (index : Nat) :
    (ledger.write number other).emptied index +
        (if record.reclaimed && record.key.index == index then 1 else 0) =
      ledger.emptied index +
        (if other.reclaimed && other.key.index == index then 1 else 0) := by
  obtain ⟨hlt, rfl⟩ := List.getElem?_eq_some_iff.mp hrecord
  have hcounted := List.boole_getElem_le_countP (p := fun record : Record α =>
    record.reclaimed && record.key.index == index) hlt
  have hset := List.countP_set (p := fun record : Record α =>
    record.reclaimed && record.key.index == index) (a := other) hlt
  simp only [emptied, write]
  omega

theorem emptied_amend (hrecord : ledger.records[number]? = some record) (cell : Cell α)
    (index : Nat) : (ledger.amend number record cell).emptied index = ledger.emptied index :=
  Nat.add_right_cancel (emptied_write hrecord { record with cell } index)

/-- Marking records as reclaimed never lowers the count of a slot. -/
theorem emptied_le_mark (ledger : Ledger α) (holds : Record α → Bool) (index : Nat) :
    ledger.emptied index ≤ (ledger.mark holds).emptied index := by
  simp only [emptied, mark, List.countP_map]
  apply List.countP_mono_left
  intro record _ hcounted
  simp only [Function.comp_apply]
  split <;> simp_all [Record.retired]

/-- The count of a slot never falls. -/
theorem emptied_le_of_perform (keys : List Key) (ledger : Ledger α) (call : Call α) (index : Nat) :
    ledger.emptied index ≤ (ledger.perform keys call).2.emptied index := by
  have hamended {number : Nat} {record : Record α} (hrecord : ledger.record number = .ok record)
      (cell : Cell α) :
      ledger.emptied index ≤ (ledger.amend number record cell).emptied index :=
    (emptied_amend (record_eq_ok.mp hrecord).1 cell index).ge
  let grown (after : Ledger α) : Prop := ledger.emptied index ≤ after.emptied index
  cases call with
  | insert content =>
      simp only [perform]
      split
      · exact Nat.le_refl _
      · split
        · simp [emptied]
        · exact Nat.le_refl _
  | get number | references number | isDeleted number =>
      refine conclude_induction grown (Nat.le_refl _) fun reply after heq => ?_
      obtain ⟨record, -, heq⟩ := bind_eq_ok.mp heq
      cases heq
      exact Nat.le_refl _
  | set number content | hold number =>
      refine conclude_induction grown (Nat.le_refl _) fun reply after heq => ?_
      obtain ⟨record, hrecord, heq⟩ := bind_eq_ok.mp heq
      cases heq
      exact hamended hrecord _
  | tombstone number =>
      refine conclude_induction grown (Nat.le_refl _) fun reply after heq => ?_
      obtain ⟨record, hrecord, heq⟩ := bind_eq_ok.mp heq
      split at heq
      · cases heq
        exact Nat.le_refl _
      · cases heq
        exact hamended hrecord _
  | release number =>
      refine conclude_induction grown (Nat.le_refl _) fun reply after heq => ?_
      obtain ⟨record, hrecord, heq⟩ := bind_eq_ok.mp heq
      split at heq
      · cases heq
      · cases heq
        exact hamended hrecord _
  | reclaim number =>
      refine conclude_induction grown (Nat.le_refl _) fun reply after heq => ?_
      obtain ⟨record, hrecord, heq⟩ := bind_eq_ok.mp heq
      obtain ⟨hrecord, hstored⟩ := record_eq_ok.mp hrecord
      have hcount := emptied_write hrecord record.retired index
      split at heq
      · cases heq
      · split at heq
        · cases heq
        · cases heq
          simp only [hstored, Bool.false_and, Bool.false_eq_true, ↓reduceIte] at hcount
          omega
  | reclaimable | size => exact Nat.le_refl _
  | sweep => exact emptied_le_mark ledger Record.idle index

theorem emptied_le_of_run {keys : List Key} (calls : List (Call α)) (ledger : Ledger α)
    (index : Nat) : ledger.emptied index ≤ (ledger.run keys calls).2.emptied index := by
  induction calls generalizing ledger with
  | nil => exact Nat.le_refl _
  | cons call rest ih => exact (emptied_le_of_perform keys ledger call index).trans (ih _)

end Ledger

end FormalLanguages.Store
