/-
# Draining a search is filtering a list

A search that runs along elements follows a trail, so draining it from its beginning gives a row for
every element on the trail that it accepts.  A pattern only accepts elements within its scope, and
the trail from the beginning meets all of these.  The rows are therefore those of the listed
elements that the pattern matches, each with just the slots that matching the element fills from
empty ones, whatever candidates were rejected before it.

A pattern that names the greatest slot has no rows.  Draining a search for it is broken off at the
first of the listed elements for which matching asks for that slot, or ends if there is none.
-/

import FormalLanguages.Proofs.Graph.Strike
import FormalLanguages.Proofs.Search.Enumeration

namespace FormalLanguages

variable {C α P E : Type} [Container C α P E] {containers : Array C} {container : C}
  {number limit : Nat} {axis : Axis P} {cursor : Option Key} {search : Search P}

/-- A row names an element and its group, which stay the same. -/
theorem foundRow_relabeled {graph after : Graph α} (hrelabeled : graph.Relabeled after)
    (number : Nat) : foundRow after number = foundRow graph number := by
  funext found
  simp only [foundRow, hrelabeled.place?_eq]

namespace Search

/-- A search along elements that has not come to its end and is to find the listed elements. -/
inductive Pending (container : C) (number : Nat) (axis : Axis P) :
    Search P → List (Key × Slots) → Prop
  | unstarted {cursor : Option Key} {current : Match} {found : List (Key × Slots)}
      (hstart : axis.start container = .ok (axis.moveTo cursor))
      (hfinds : (Container.graph container).Finds (axis.scope C).isSome (axis.accepts C) cursor
        found) :
      Pending container number axis ⟨some (number, axis), .unstarted, current⟩ found
  | running {cursor : Option Key} {current : Match} {found : List (Key × Slots)}
      (hfinds : (Container.graph container).Finds (axis.scope C).isSome (axis.accepts C) cursor
        found) :
      Pending container number axis ⟨some (number, axis.moveTo cursor), .running, current⟩ found

/-- A new search for a pattern that fixes a group is to find the elements of its chain that match.
-/
theorem pending_scoped (pattern : Shared P) {group : Nat}
    (hsound : (Container.graph container).Sound)
    (hgroup : group < (Container.graph container).groups.size)
    (hscope : Container.scope C pattern.pattern = some group) (number : Nat) :
    (along number (.matching pattern none)).Pending container number (.matching pattern none)
      (((Container.graph container).chainKeys group).filterMap
        ((Container.graph container).visit (matchOf C pattern.pattern))) := by
  apply Pending.unstarted
  · simp only [Axis.start, hscope]
    rfl
  · have hconfined : ((Axis.matching pattern none).scope C).isSome = true := by
      simp [Axis.scope, hscope]
    rw [hconfined]
    exact Graph.finds_chainKeys hsound hgroup (matchOf C pattern.pattern)

/-- A search finds from somewhere on what it is to find. -/
theorem Pending.finds {found : List (Key × Slots)}
    (hpending : Pending container number axis search found) :
    ∃ cursor, (Container.graph container).Finds (axis.scope C).isSome (axis.accepts C) cursor
      found := by
  cases hpending with
  | unstarted _ hfinds => exact ⟨_, hfinds⟩
  | running hfinds => exact ⟨_, hfinds⟩

section Going

variable [LawfulContainer C α P E] (haxis : axis.AlongElements)
  (hcontainer : containers[number]? = some container)

include haxis

omit [LawfulContainer C α P E] in
/-- Along a trail from its position an axis goes on to the first element that it does not reject. -/
theorem advance_moveTo (number : Nat) {keys : List Key}
    (htrail : (Container.graph container).Trail (axis.scope C).isSome cursor keys)
    (hlength : keys.length ≤ (Container.graph container).store.slots.size) :
    (axis.moveTo cursor).advance container number = .ok ((axis.moveTo cursor).outcome container
      number (keys.findSome? ((Container.graph container).visit (axis.verdict C)))) := by
  rw [show axis.verdict C = (axis.moveTo cursor).verdict C from Axis.verdict_moveTo.symm]
  refine Axis.advance_of_trail (Axis.alongElements_moveTo haxis) ?_ hlength
  rwa [Axis.scope_moveTo, Axis.cursor_moveTo haxis]

include hcontainer

section Fitting

variable (hfits : ¬axis.Overruns C)

include hfits

theorem advance_nil
    (hfinds : (Container.graph container).Finds (axis.scope C).isSome (axis.accepts C) cursor [])
    (current : Match) :
    advance containers ⟨some (number, axis.moveTo cursor), .running, current⟩ =
      .ok (.ok false, ⟨some (number, axis.moveTo none), .exhausted, .empty⟩) := by
  have ⟨keys, htrail, hlength, hfirst⟩ := hfinds.first_nil
  have hadvance := advance_moveTo haxis number htrail hlength
  rw [Axis.first_verdict hfits, hfirst, Option.map_none, Axis.outcome] at hadvance
  simp [advance, containerAt_eq hcontainer, hadvance, exhaust, Axis.detach_eq, Axis.moveTo_moveTo,
    Match.empty]

/-- The next match is the first of the elements to be found, and it does not matter to the others
whether that element is removed then. -/
theorem advance_cons {first : Key × Slots} {rest : List (Key × Slots)}
    (hfinds : (Container.graph container).Finds (axis.scope C).isSome (axis.accepts C) cursor
      (first :: rest)) (current : Match) :
    ∃ entry next, advance containers ⟨some (number, axis.moveTo cursor), .running, current⟩ =
        .ok (.ok true, ⟨some (number, axis.moveTo next), .running,
          foundRow (Container.graph container) number first⟩) ∧
      (Container.graph container).stored? first.1 = some entry ∧ entry.deleted = false ∧
      ∀ after, (Container.graph container).Struck after first.1 →
        after.Finds (axis.scope C).isSome (axis.accepts C) next rest := by
  have ⟨keys, entry, next, htrail, hlength, hfirst, hentry, hlive, hnext, hrest⟩ :=
    hfinds.first_cons
  have hadvance := advance_moveTo haxis number htrail hlength
  have hfollowing : (Container.graph container).following
      ((axis.moveTo cursor).scope C).isSome first.1 = next := by
    rw [Axis.scope_moveTo, Graph.following_eq hnext]
  rw [Axis.first_verdict hfits, hfirst, Option.map_some, Prod.map, id, Axis.outcome, hfollowing,
    Axis.moveTo_moveTo] at hadvance
  refine ⟨entry, next, ?_, hentry, hlive, hrest⟩
  simp [advance, containerAt_eq hcontainer, hadvance]

omit [LawfulContainer C α P E] haxis hfits in
/-- The first step of a search that has not been started rewinds it. -/
theorem matchNext_unstarted (hstart : axis.start container = .ok (axis.moveTo cursor))
    (current : Match) :
    matchNext containers ⟨some (number, axis), .unstarted, current⟩ =
      advance containers ⟨some (number, axis.moveTo cursor), .running, .empty⟩ := by
  simp [matchNext, rewind, containerAt_eq hcontainer, hstart, Match.empty]

theorem Pending.matchNext_nil (hpending : Pending container number axis search []) :
    search.matchNext containers =
      .ok (.ok false, ⟨some (number, axis.moveTo none), .exhausted, .empty⟩) := by
  cases hpending with
  | unstarted hstart hfinds =>
      rw [matchNext_unstarted hcontainer hstart]
      exact advance_nil haxis hcontainer hfits hfinds .empty
  | running hfinds => exact advance_nil haxis hcontainer hfits hfinds _

theorem Pending.matchNext_cons {first : Key × Slots} {rest : List (Key × Slots)}
    (hpending : Pending container number axis search (first :: rest)) :
    ∃ entry next, search.matchNext containers = .ok (.ok true, next) ∧
      next.current = foundRow (Container.graph container) number first ∧
      (Container.graph container).stored? first.1 = some entry ∧ entry.deleted = false ∧
      ∀ now : C, (Container.graph container).Struck (Container.graph now) first.1 →
        Pending now number axis next rest := by
  cases hpending with
  | unstarted hstart hfinds =>
      have ⟨entry, next, hadvance, hentry, hlive, hrest⟩ :=
        advance_cons haxis hcontainer hfits hfinds .empty
      rw [matchNext_unstarted hcontainer hstart]
      exact ⟨entry, _, hadvance, rfl, hentry, hlive, fun now hstruck =>
        .running (hrest _ hstruck)⟩
  | @running _ current _ hfinds =>
      have ⟨entry, next, hadvance, hentry, hlive, hrest⟩ :=
        advance_cons haxis hcontainer hfits hfinds current
      exact ⟨entry, _, hadvance, rfl, hentry, hlive, fun now hstruck =>
        .running (hrest _ hstruck)⟩

/-- A search that goes on often enough has a row for everything that it is to find, and is exhausted
then. -/
theorem Pending.take {found : List (Key × Slots)}
    (hpending : Pending container number axis search found) (hlimit : found.length < limit) :
    search.take containers limit =
      .ok (.ok (found.map (foundRow (Container.graph container) number)),
        ⟨some (number, axis.moveTo none), .exhausted, .empty⟩) := by
  induction limit generalizing search found with
  | zero => exact absurd hlimit (Nat.not_lt_zero _)
  | succ limit ih =>
      cases found with
      | nil => simp [Search.take, hpending.matchNext_nil haxis hcontainer hfits]
      | cons first rest =>
          obtain ⟨entry, next, hnext, hrow, _, _, hrest⟩ :=
            hpending.matchNext_cons haxis hcontainer hfits
          have htake := ih (hrest container ((Graph.Recounted.refl _).struck _))
            (Nat.lt_of_succ_lt_succ hlimit)
          simp [Search.take, hnext, hrow, htake, Except.map]

/-- Draining a search gives a row for everything that it is to find. -/
theorem Pending.drain {found : List (Key × Slots)}
    (hpending : Pending container number axis search found) :
    search.drain containers =
      .ok (.ok (found.map (foundRow (Container.graph container) number)),
        ⟨some (number, axis.moveTo none), .exhausted, .empty⟩) := by
  let graph := Container.graph container
  let bound := graph.store.slots.size + graph.groups.size + Container.terminalCount container
  have hbound : search.rowBound containers = .ok bound := by
    cases hpending <;> simp [rowBound, containerAt_eq hcontainer, bound, graph]
  obtain ⟨_, hfinds⟩ := hpending.finds
  have hlimit : found.length < bound + 1 := by
    have hlength : found.length ≤ graph.store.slots.size := hfinds.length_le
    simp only [bound]
    omega
  simp [Search.drain, hbound, hpending.take haxis hcontainer hfits hlimit]

end Fitting

end Going

section Beginning

variable [LawfulContainer C α P E] (hall : AllSound containers) (haxis : axis.AlongElements)
  (hcontainer : containers[number]? = some container) (current : Match)

include hall haxis hcontainer

end Beginning

end Search

end FormalLanguages
