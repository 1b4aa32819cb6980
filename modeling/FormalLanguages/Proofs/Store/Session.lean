/-
# Every session keeps to its ledger

A session of calls and the ledger of its insertions proceed side by side.  At each call the store
answers what the ledger answers, or ends in the same fault, and afterwards the key of every
insertion resolves to what the ledger has in its record.  This is proved for one call, and from it
for a run by induction on the calls.
-/

import FormalLanguages.Proofs.Store.Mirrors

namespace FormalLanguages.Store

variable {α : Type} {session after : Session α} {ledger : Ledger α} {number : Nat}
  {record : Record α} {keys : List Key} {call : Call α} {reply : Reply α}

namespace Session

/-- A session keeps to a ledger if it was given the keys of its records, and the store mirrors
these. -/
structure Keeps (session : Session α) (ledger : Ledger α) : Prop where
  keys_eq : session.keys = ledger.records.map Record.key
  mirrors : Mirrors session.store ledger

/-- No call takes back a key. -/
theorem keys_prefix_of_perform (session : Session α) (call : Call α) :
    session.keys <+: (session.perform call).2.keys := by
  let longer (after : Session α) : Prop := session.keys <+: after.keys
  cases call with
  | insert content => exact List.prefix_append _ _
  | reclaimable | size => exact List.prefix_rfl
  | sweep =>
      refine conclude_induction longer List.prefix_rfl fun reply after heq => ?_
      obtain ⟨_, -, heq⟩ := bind_eq_ok.mp heq
      cases heq
      exact List.prefix_rfl
  | get number | set number content | hold number | release number | references number
  | isDeleted number | tombstone number | reclaim number =>
      refine conclude_induction longer List.prefix_rfl fun reply after heq => ?_
      obtain ⟨key, -, heq⟩ := bind_eq_ok.mp heq
      obtain ⟨_, -, heq⟩ := bind_eq_ok.mp heq
      cases heq
      exact List.prefix_rfl

theorem keys_prefix_of_run (session : Session α) (calls : List (Call α)) :
    session.keys <+: (session.run calls).2.keys := by
  induction calls generalizing session with
  | nil => exact List.prefix_rfl
  | cons call rest ih => exact (keys_prefix_of_perform session call).trans (ih _)

/-- What a call concerning one insertion does in a store and in a ledger. -/
theorem Keeps.numbered {β γ : Type} {related : β → γ → Prop} {operation : Key → Except Fault β}
    {entry : Record α → Except Fault γ} (hkeeps : Keeps session ledger) (number : Nat)
    (hfault : ∀ key fault, session.store.cell key = .error fault → operation key = .error fault)
    (hstored : ∀ record, ledger.records[number]? = some record → record.reclaimed = false →
      session.store.cell? record.key = some record.cell →
        Agree related (operation record.key) (entry record)) :
    Agree related (session.key number >>= operation) (ledger.record number >>= entry) := by
  cases hrecord : ledger.records[number]? with
  | none =>
      have hledger : ledger.record number =
          .error (.outOfBounds ledger.records.length number) := by
        simp [Ledger.record, hrecord]
      have hsession : session.key number =
          .error (.outOfBounds ledger.records.length number) := by
        simp [Session.key, hkeeps.keys_eq, hrecord]
      rw [hledger, hsession]
      exact .error _
  | some record =>
      have hmem := List.mem_of_getElem? hrecord
      have hkey : session.key number = .ok record.key := by
        simp [Session.key, hkeeps.keys_eq, hrecord]
      rw [hkey, ok_bind]
      cases hreclaimed : record.reclaimed with
      | false =>
          rw [Ledger.record_eq_ok.mpr ⟨hrecord, hreclaimed⟩, ok_bind]
          exact hstored record hrecord hreclaimed (hkeeps.mirrors.stored hmem hreclaimed)
      | true =>
          have hgone := hkeeps.mirrors.cell?_eq record hmem
          rw [Record.current, hreclaimed, if_pos rfl] at hgone
          have hstale := cell_eq_staleKey hgone (hkeeps.mirrors.placed record hmem)
          have hledger : ledger.record number = .error (.staleKey record.key) := by
            simp [Ledger.record, hrecord, hreclaimed]
          rw [hfault record.key _ hstale, hledger]
          exact .error _

/-- A session in which the cell of a record and of its key was changed alike. -/
theorem Keeps.amend (hkeeps : Keeps session ledger)
    (hrecord : ledger.records[number]? = some record) (hstored : record.reclaimed = false)
    {cell : Cell α} {store : Store α} (htidy : store.Tidy ledger.refused)
    (hslots : store.slots = (session.store.put record.key cell).slots) :
    Keeps (session.withStore store) (ledger.amend number record cell) where
  keys_eq := by
    rw [Ledger.amend, Ledger.map_key_write hrecord { record with cell } rfl]
    exact hkeeps.keys_eq
  mirrors := hkeeps.mirrors.amend hrecord hstored htidy hslots

/-- What looks for faults before it changes anything leaves a session and its ledger in accord. -/
theorem Keeps.conclude (hkeeps : Keeps session ledger)
    {first : Except Fault (Reply α × Session α)} {second : Except Fault (Reply α × Ledger α)}
    (hagree : Agree (fun first second => first.1 = second.1 ∧ Keeps first.2 second.2) first
      second) :
    (conclude session first).1 = (conclude ledger second).1 ∧
      Keeps (conclude session first).2 (conclude ledger second).2 := by
  cases hagree with
  | @ok first second hrelated => exact ⟨congrArg Except.ok hrelated.1, hrelated.2⟩
  | error fault => exact ⟨rfl, hkeeps⟩

/-- A call has the same answer, or the same fault, in a session and in its ledger, and leaves the
two in accord. -/
def Accords (keys : List Key) (session : Session α) (ledger : Ledger α) (call : Call α) : Prop :=
  (session.perform call).1 = (ledger.perform keys call).1 ∧
    Keeps (session.perform call).2 (ledger.perform keys call).2

section Calls

variable (hkeeps : Keeps session ledger)

include hkeeps

/-- A value that is inserted is recorded with its key, or refused by both. -/
theorem Keeps.insert (content : α) (hkeys : (session.perform (.insert content)).2.keys <+: keys) :
    Accords keys session ledger (.insert content) := by
  have hmirrors := hkeeps.mirrors
  cases hfull : session.store.isFull with
  | true =>
      have hstored := hmirrors.isFull_iff.mp hfull
      simp only [Accords, Session.perform, Ledger.perform, insert_full hfull, if_pos hstored]
      exact ⟨rfl, by simpa [Except.toOption] using hkeeps.keys_eq, hmirrors.refuse hfull⟩
  | false =>
      have hstored : ¬2 ^ 32 ≤ ledger.stored := fun hle => by
        cases hfull.symm.trans (hmirrors.isFull_iff.mpr hle)
      have hkey : keys[ledger.records.length]? = some (session.store.place content).1 := by
        simp only [Session.perform, insert_eq hfull] at hkeys
        obtain ⟨rest, hrest⟩ := hkeys
        have hlength : ledger.records.length = session.keys.length := by
          rw [hkeeps.keys_eq, List.length_map]
        rw [← hrest, hlength]
        simp [Except.toOption]
      simp only [Accords, Session.perform, Ledger.perform, insert_eq hfull, if_neg hstored, hkey]
      refine ⟨rfl, ?_, hmirrors.place hfull content⟩
      simp [hkeeps.keys_eq, Except.toOption]

theorem Keeps.release (number : Nat) : Accords keys session ledger (.release number) := by
  refine hkeeps.conclude <| hkeeps.numbered number
    (fun key fault h => by simp [Store.release, h]) fun record hrecord hstored hcell => ?_
  by_cases hheld : record.cell.references = 0
  · have hunheld : session.store.release record.key = .error (.unheldRelease record.key) := by
      simp [Store.release, cell_eq_ok_iff.mpr hcell, hheld]
    rw [hunheld, if_pos hheld]
    exact .error _
  · rw [release_eq hcell hheld, if_neg hheld]
    exact .ok ⟨rfl, hkeeps.amend hrecord hstored (hkeeps.mirrors.tidy.put hcell rfl) rfl⟩

theorem Keeps.tombstone (number : Nat) : Accords keys session ledger (.tombstone number) := by
  refine hkeeps.conclude <| hkeeps.numbered number
    (fun key fault h => by simp [Store.tombstone, h]) fun record hrecord hstored hcell => ?_
  rw [tombstone_eq hcell]
  cases hdeleted : record.cell.deleted with
  | false =>
      have htidy := hkeeps.mirrors.tidy.bury hcell hdeleted
      exact .ok ⟨rfl, hkeeps.amend hrecord hstored htidy rfl⟩
  | true => exact .ok ⟨rfl, hkeeps⟩

/-- A value that is reclaimed is marked so, unless it is live or referred to. -/
theorem Keeps.reclaim (number : Nat)
    (hspared : ∀ index, (ledger.perform keys (.reclaim number)).2.emptied index < 2 ^ 32) :
    Accords keys session ledger (.reclaim number) := by
  refine hkeeps.conclude <| hkeeps.numbered number
    (fun key fault h => by simp [Store.reclaim, h]) fun record hrecord hstored hcell => ?_
  cases hdeleted : record.cell.deleted with
  | false =>
      have hlive : session.store.reclaim record.key = .error (.liveReclaim record.key) := by
        simp [Store.reclaim, cell_eq_ok_iff.mpr hcell, hdeleted]
      rw [hlive]
      exact .error _
  | true =>
      by_cases hheld : record.cell.references = 0
      · have hidle : record.idle = true := by simp [Record.idle, hstored, hdeleted, hheld]
        have hperform : ledger.perform keys (.reclaim number) =
            (.ok (.content record.cell.content), ledger.write number record.retired) := by
          simp [Ledger.perform, Ledger.record_eq_ok.mpr ⟨hrecord, hstored⟩, hdeleted, hheld,
            Store.conclude]
        rw [hperform] at hspared
        rw [reclaim_eq hcell hdeleted hheld]
        simp only [Bool.true_eq_false, ↓reduceIte, ne_eq, hheld, not_true_eq_false]
        refine .ok ⟨rfl, ?_, hkeeps.mirrors.retire hrecord hidle (hspared _)⟩
        rw [Ledger.map_key_write hrecord record.retired rfl]
        exact hkeeps.keys_eq
      · have hreferenced : session.store.reclaim record.key =
            .error (.referencedReclaim record.key) := by
          simp [Store.reclaim, cell_eq_ok_iff.mpr hcell, hdeleted, hheld]
        rw [hreferenced]
        simp only [Bool.true_eq_false, ↓reduceIte, ne_eq, hheld, not_false_eq_true]
        exact .error _

theorem Keeps.sweep
    (hspared : ∀ index, (ledger.mark Record.idle).emptied index < 2 ^ 32) :
    Accords keys session ledger .sweep := by
  have hmirrors := hkeeps.mirrors
  rw [← Ledger.retire_idle hmirrors.nodup] at hspared
  obtain ⟨store, hsweep, hswept⟩ := hmirrors.sweep hspared
  simp only [Accords, Session.perform, Ledger.perform, hsweep, ok_bind, pure_eq_ok,
    ← Ledger.retire_idle hmirrors.nodup]
  refine ⟨rfl, ?_, hswept⟩
  rw [Ledger.map_key_retire]
  exact hkeeps.keys_eq

theorem Keeps.perform (hkeys : (session.perform call).2.keys <+: keys)
    (hspared : ∀ index, (ledger.perform keys call).2.emptied index < 2 ^ 32) :
    Accords keys session ledger call := by
  have hmirrors := hkeeps.mirrors
  cases call with
  | insert content => exact hkeeps.insert content hkeys
  | get number =>
      refine hkeeps.conclude <| hkeeps.numbered number (fun key fault h => by simp [Store.get, h])
        fun record hrecord hstored hcell => ?_
      rw [get_eq hcell]
      exact .ok ⟨rfl, hkeeps⟩
  | set number content =>
      refine hkeeps.conclude <| hkeeps.numbered number (fun key fault h => by simp [Store.set, h])
        fun record hrecord hstored hcell => ?_
      rw [set_eq hcell]
      exact .ok ⟨rfl, hkeeps.amend hrecord hstored (hmirrors.tidy.put hcell rfl) rfl⟩
  | hold number =>
      refine hkeeps.conclude <| hkeeps.numbered number (fun key fault h => by simp [Store.hold, h])
        fun record hrecord hstored hcell => ?_
      rw [hold_eq hcell]
      exact .ok ⟨rfl, hkeeps.amend hrecord hstored (hmirrors.tidy.put hcell rfl) rfl⟩
  | release number => exact hkeeps.release number
  | references number =>
      refine hkeeps.conclude <| hkeeps.numbered number
        (fun key fault h => by simp [Store.references, h]) fun record hrecord hstored hcell => ?_
      rw [references_eq hcell]
      exact .ok ⟨rfl, hkeeps⟩
  | isDeleted number =>
      refine hkeeps.conclude <| hkeeps.numbered number
        (fun key fault h => by simp [Store.isDeleted, h]) fun record hrecord hstored hcell => ?_
      rw [isDeleted_eq hcell]
      exact .ok ⟨rfl, hkeeps⟩
  | tombstone number => exact hkeeps.tombstone number
  | reclaim number => exact hkeeps.reclaim number hspared
  | reclaimable => exact ⟨congrArg (Except.ok ∘ Reply.keys) hmirrors.reclaimable_eq, hkeeps⟩
  | sweep => exact hkeeps.sweep hspared
  | size => exact ⟨congrArg (Except.ok ∘ Reply.count) hmirrors.live_eq, hkeeps⟩

end Calls

/-- A run has the same answers in a session and in its ledger, and leaves the two in accord. -/
theorem Keeps.run (hkeeps : Keeps session ledger) (calls : List (Call α))
    (hkeys : (session.run calls).2.keys <+: keys)
    (hspared : ∀ index, (ledger.run keys calls).2.emptied index < 2 ^ 32) :
    (session.run calls).1 = (ledger.run keys calls).1 ∧
      Keeps (session.run calls).2 (ledger.run keys calls).2 := by
  induction calls generalizing session ledger with
  | nil => exact ⟨rfl, hkeeps⟩
  | cons call rest ih =>
      have hkept : Accords keys session ledger call :=
        hkeeps.perform ((keys_prefix_of_run _ rest).trans hkeys) fun index =>
          Nat.lt_of_le_of_lt (Ledger.emptied_le_of_run rest _ index) (hspared index)
      obtain ⟨hreplies, hlast⟩ := ih hkept.2 hkeys hspared
      exact ⟨congrArg₂ List.cons hkept.1 hreplies, hlast⟩

end Session

/-! ## Removals -/

namespace Ledger

/-- Whether a call was answered by the removal of an insertion. -/
def removes (number : Nat) : Call α × Except Fault (Reply α) → Bool
  | (.tombstone asked, .ok (.truth removed)) => asked == number && removed
  | _ => false

/-- Whether the value of an insertion has been removed. -/
def removed (ledger : Ledger α) (number : Nat) : Bool :=
  ledger.records[number]?.any (·.cell.deleted)

variable {written : Ledger α}

/-- Whether a call was an insertion that was refused because the store was full. -/
def refuses : Call α × Except Fault (Reply α) → Bool
  | (.insert _, .error .fullStore) => true
  | _ => false

end Ledger

namespace Session

/-- What looks for faults before it changes anything leaves things as they were if there is one. -/
theorem eq_of_conclude {σ β : Type} {before left : σ} {outcome : Except Fault (β × σ)}
    {fault : Fault} (hconclude : conclude before outcome = (.error fault, left)) :
    left = before := by
  cases outcome with
  | error other =>
      cases hconclude
      rfl
  | ok result => cases hconclude

/-- A call that ends in a fault changes nothing, unless it is an insertion into a full store, which
has counted its value. -/
theorem after_fault {fault : Fault} (hperform : session.perform call = (.error fault, after)) :
    after = session ∨
      (∃ content, call = .insert content) ∧ fault = .fullStore ∧ session.store.isFull = true ∧
        after = session.withStore { session.store with live := session.store.live + 1 } := by
  cases call with
  | insert content =>
      cases hfull : session.store.isFull with
      | true =>
          simp only [perform, insert_full hfull] at hperform
          cases hperform
          exact .inr ⟨⟨content, rfl⟩, rfl, rfl, by simp [withStore, Except.toOption]⟩
      | false =>
          simp only [perform, insert_eq hfull] at hperform
          cases hperform
  | reclaimable | size => cases hperform
  | get number | set number content | hold number | release number | references number
  | isDeleted number | tombstone number | reclaim number | sweep =>
      exact .inl (eq_of_conclude hperform)

/-- A session after some calls, the replies to these, and the ledger of its insertions. -/
structure Agrees (calls : List (Call α)) (replies : List (Except Fault (Reply α)))
    (session : Session α) (ledger : Ledger α) : Prop where
  keys_eq : session.keys = ledger.records.map Record.key
  /-- The keys of the insertions are all different. -/
  keys_nodup : session.keys.Nodup
  /-- The key of an insertion resolves to what its record says, and to nothing once it is
  reclaimed. -/
  cell?_eq : ∀ record ∈ ledger.records, session.store.cell? record.key = record.current
  /-- A new value never goes to the slot of a stored one. -/
  apart : ∀ record ∈ ledger.records, record.reclaimed = false → ∀ content key,
    (session.store.insert content).1 = .ok key → key.index ≠ record.key.index
  /-- The values that count as live are those that have not been removed, and those that were
  refused. -/
  live_eq : session.store.live =
    ledger.records.countP (fun record => !record.cell.deleted) +
      (calls.zip replies).countP Ledger.refuses
  /-- An insertion is removed by one call or by none. -/
  removed_eq : ∀ number record, ledger.records[number]? = some record →
    (calls.zip replies).countP (Ledger.removes number) = record.cell.deleted.toNat
  slots_le : session.store.slots.size ≤ ledger.records.length
  /-- A value is refused exactly if as many are stored as there are numbers for slots. -/
  refused_iff : ∀ content,
    (session.store.insert content).1 = .error .fullStore ↔ 2 ^ 32 ≤ ledger.stored
  /-- A fault changes nothing, except that a refused value has been counted. -/
  after_fault : ∀ call fault after, session.perform call = (.error fault, after) →
    after = session ∨
      (∃ content, call = .insert content) ∧ fault = .fullStore ∧
        after = session.withStore { session.store with live := session.store.live + 1 }
  /-- As long as there are fewer slots than numbers for them, live values are the insertions not
  removed, and a fault changes nothing at all. -/
  counted : session.store.slots.size < 2 ^ 32 →
    session.store.live = ledger.records.countP (fun record => !record.cell.deleted) ∧
      ∀ call fault after, session.perform call = (.error fault, after) → after = session

theorem Keeps.agrees (hkeeps : Keeps session ledger) {calls : List (Call α)}
    {replies : List (Except Fault (Reply α))}
    (hrefused : (calls.zip replies).countP Ledger.refuses = ledger.refused)
    (hremoved : ∀ number, (calls.zip replies).countP (Ledger.removes number) =
      (ledger.removed number).toNat) : Agrees calls replies session ledger := by
  have hmirrors := hkeeps.mirrors
  have hlive : session.store.live = ledger.records.countP (fun record => !record.cell.deleted) +
      ledger.refused := hmirrors.live_eq
  refine
    { keys_eq := hkeeps.keys_eq
      keys_nodup := hkeeps.keys_eq ▸ hmirrors.nodup
      cell?_eq := hmirrors.cell?_eq
      apart := fun record hrecord hstored content key hinsert => ?apart
      live_eq := hrefused ▸ hlive
      removed_eq := fun number record hrecord => ?removed
      slots_le := hmirrors.slots_le
      refused_iff := fun content => ?refused
      after_fault := fun call fault after hperform => ?fault
      counted := fun hslots => ⟨?live, fun call fault after hperform => ?unchanged⟩ }
  case apart =>
    have hapart := hmirrors.tidy.place_apart content (hmirrors.stored hrecord hstored)
    cases hfull : session.store.isFull with
    | true =>
        rw [insert_full hfull] at hinsert
        cases hinsert
    | false =>
        rw [insert_eq hfull] at hinsert
        exact Except.ok.inj hinsert ▸ hapart
  case removed => simpa [Ledger.removed, hrecord] using hremoved number
  case refused =>
    rw [← hmirrors.isFull_iff]
    cases hfull : session.store.isFull with
    | true => simp [insert_full hfull]
    | false => simp [insert_eq hfull]
  case fault =>
    rcases Session.after_fault hperform with hsame | ⟨hinsert, hfault, -, hcounted⟩
    · exact .inl hsame
    · exact .inr ⟨hinsert, hfault, hcounted⟩
  case live => rw [hlive, hmirrors.refused_eq hslots, Nat.add_zero]
  case unchanged =>
    rcases Session.after_fault hperform with hsame | ⟨-, -, hfull, -⟩
    · exact hsame
    · cases hfull.symm.trans (isFull_eq_false hslots)

end Session

end FormalLanguages.Store
