/-
# A session remembers every key it was given

Whoever uses a store holds the keys that it handed out, those of freed values included, and may
ask anything with any of them.  A session is a store together with these keys in the order of
their insertions.  Its calls name a value by the number of its insertion, so that a call means
the same whatever keys a store chooses.

A session goes on after a fault.  An insertion into a full store leaves a trace there; every other
call looks for faults before it changes anything.
-/

import FormalLanguages.Store

namespace FormalLanguages.Store

variable {α : Type}

/-- The outcome of something that looks for faults before it changes anything: a fault leaves things
as they were. -/
def conclude {σ β : Type} (before : σ) : Except Fault (β × σ) → Except Fault β × σ
  | .ok (result, after) => (.ok result, after)
  | .error fault => (.error fault, before)

/-- What can be asked of a store by a holder of its keys. -/
inductive Call (α : Type)
  | insert (content : α)
  | get (number : Nat)
  | set (number : Nat) (content : α)
  | hold (number : Nat)
  | release (number : Nat)
  | references (number : Nat)
  | isDeleted (number : Nat)
  | tombstone (number : Nat)
  | reclaim (number : Nat)
  | reclaimable
  /-- Reclaim everything that may be reclaimed, one value after the other. -/
  | sweep
  /-- The number of live values. -/
  | size
  deriving DecidableEq, Repr

/-- What a store answers. -/
inductive Reply (α : Type)
  | done
  | key (key : Key)
  | content (content : α)
  | count (count : Nat)
  | truth (truth : Bool)
  | keys (keys : List Key)
  | contents (contents : List α)
  deriving DecidableEq, Repr

/-- A store and the keys of its insertions, in their order. -/
structure Session (α : Type) where
  store : Store α := .empty
  keys : List Key := []
  deriving DecidableEq, Repr

namespace Session

/-- The key of an insertion. -/
def key (session : Session α) (number : Nat) : Except Fault Key :=
  match session.keys[number]? with
  | some key => .ok key
  | none => .error (.outOfBounds session.keys.length number)

/-- The session with another store. -/
def withStore (session : Session α) (store : Store α) : Session α := { session with store }

/-- Answer one call. -/
def perform (session : Session α) : Call α → Except Fault (Reply α) × Session α
  | .insert content =>
      let (inserted, store) := session.store.insert content
      (inserted.map .key, { store, keys := session.keys ++ inserted.toOption.toList })
  | .get number => conclude session do
      let content ← session.store.get (← session.key number)
      return (.content content, session)
  | .set number content => conclude session do
      let store ← session.store.set (← session.key number) content
      return (.done, session.withStore store)
  | .hold number => conclude session do
      let store ← session.store.hold (← session.key number)
      return (.done, session.withStore store)
  | .release number => conclude session do
      let store ← session.store.release (← session.key number)
      return (.done, session.withStore store)
  | .references number => conclude session do
      let count ← session.store.references (← session.key number)
      return (.count count, session)
  | .isDeleted number => conclude session do
      let deleted ← session.store.isDeleted (← session.key number)
      return (.truth deleted, session)
  | .tombstone number => conclude session do
      let (removed, store) ← session.store.tombstone (← session.key number)
      return (.truth removed, session.withStore store)
  | .reclaim number => conclude session do
      let (content, store) ← session.store.reclaim (← session.key number)
      return (.content content, session.withStore store)
  | .reclaimable => (.ok (.keys session.store.reclaimable), session)
  | .sweep => conclude session do
      let (contents, store) ← session.store.sweep
      return (.contents contents, session.withStore store)
  | .size => (.ok (.count session.store.live), session)

/-- Answer calls in order. -/
def run (session : Session α) : List (Call α) → List (Except Fault (Reply α)) × Session α
  | [] => ([], session)
  | call :: rest =>
      let (reply, after) := session.perform call
      let (replies, last) := after.run rest
      (reply :: replies, last)

end Session

end FormalLanguages.Store
