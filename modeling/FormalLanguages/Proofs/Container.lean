/-
# What everything that is kept may rely on

Grammars and automata keep different tables beside their graphs, and each has to show in its own
way that its changes keep these tables right.  What searches and references need of a container
does not depend on which of the two it is, and is stated here once: a container that is sound has a
sound graph, its changes let the graph evolve and end in no other fault than that an index has run
out, and changing labels in its graph does no harm.

A container also has to keep its word about patterns.  A pattern asks for the slots that its terms
name, and for all of them where it fits.  So matching never ends in a fault, unless a term names the
greatest of all slots; such a pattern matches nothing.  And a pattern that is confined to a group
rejects all elements of other groups.
-/

import FormalLanguages.Container
import FormalLanguages.Proofs.Graph.Change
import FormalLanguages.Proofs.Graph.Seek
import FormalLanguages.Proofs.Unification
import FormalLanguages.Search

namespace FormalLanguages

/-- A term of the pattern names the greatest of all slots, for which no count of slots provides. -/
def Container.Overruns (C : Type) {α P E : Type} [Container C α P E] (pattern : P) : Prop :=
  some greatestSlot ∈ Container.slots C pattern

instance {C α P E : Type} [Container C α P E] (pattern : P) :
    Decidable (Container.Overruns C pattern) :=
  inferInstanceAs (Decidable (some greatestSlot ∈ Container.slots C pattern))

/-- The slots that matching an element against a pattern fills, with empty slots to begin with, if
it matches. -/
def slotsOf {C α P E : Type} [Container C α P E] (pattern : P) (element : Element α) :
    Except Fault (Option Slots) :=
  match examine (C := C) pattern element (List.replicate (Container.slotCount C pattern) none) with
  | (.ok true, slots) => .ok (some slots)
  | (.ok false, _) => .ok none
  | (.error fault, _) => .error fault

/-- A change that was carried out: the container is sound again, what was stored went on as it may,
and an element that the answer names is stored. -/
structure Edited {C α P E : Type} [Container C α P E] (sound : C → Prop) (container : C)
    (answer : Answer) (after : C) : Prop where
  sound : sound after
  evolves : (Container.graph container).Evolves (Container.graph after)
  stored : ∀ key, answer = .element key →
    ∃ entry, (Container.graph after).stored? key = some entry

/-- Containers whose changes keep them sound. -/
class LawfulContainer (C : Type) (α P E : outParam Type) [Container C α P E] where
  /-- Whether the tables of a container fit to its graph. -/
  Sound : C → Prop
  graph_sound {container : C} (hsound : Sound container) : (Container.graph container).Sound
  graph_setGraph (container : C) (graph : Graph α) :
    Container.graph (Container.setGraph container graph) = graph
  /-- Elements may be removed, and references taken and given back, without the container. -/
  sound_setGraph {container : C} {graph : Graph α} (hsound : Sound container) (hgraph : graph.Sound)
    (hpersists : (Container.graph container).Persists graph) :
    Sound (Container.setGraph container graph)
  edit_spec {container : C} (hsound : Sound container) (change : E) :
    (∃ answer after, Container.edit container change = .ok (answer, after) ∧
      Edited Sound container answer after) ∨
    ∃ kind, Container.edit container change = .error (.overflow kind)
  reclaim_spec {container : C} (hsound : Sound container) :
    ∃ count after, Container.reclaim container = .ok (count, after) ∧ Sound after ∧
      (Container.graph container).Swept (Container.graph container).store.reclaimable
        (Container.graph after)
  firstGroup_spec {container : C} (hsound : Sound container) :
    ∃ group, Container.firstGroup container = .ok group
  shows_spec {container : C} (hsound : Sound container) (group : Nat) :
    ∃ shown, Container.shows container group = .ok shown
  /-- A pattern asks for slots that its terms name. -/
  named {pattern : P} {element : Element α} {slot : Nat} {value : Binding}
    (hasked : .bind slot value ∈ Container.constraints C pattern element) :
    ∃ word, some word ∈ Container.slots C pattern ∧ slot = word.toNat
  /-- Where it fits, it asks for each of them. -/
  asked {pattern : P} {element : Element α}
    (hfits : ∀ constraint ∈ Container.constraints C pattern element, constraint.Fits)
    {word : UInt64} (hnamed : some word ∈ Container.slots C pattern) :
    ∃ value, .bind word.toNat value ∈ Container.constraints C pattern element
  /-- A pattern that is confined to a group rejects what is not in it. -/
  scope_spec {container : C} (hsound : Sound container) {pattern : P} {key : Key} {entry : Entry α}
    {group : Nat} (hentry : (Container.graph container).stored? key = some entry)
    (hslots : slotsOf (C := C) pattern entry.toElement ≠ .ok none)
    (hscope : Container.scope C pattern = some group) : entry.group = group

/-- An index from which freed elements are taken out one by one lists in the end what it listed
before, apart from the freed elements under their own places. -/
theorem listed_foldl {ι κ α : Type} (unfile : ι → Key → Node α → ι) (placeOf : Node α → κ)
    (listed : ι → κ → Key → Prop)
    (hunfile : ∀ index key node place other, listed (unfile index key node) place other ↔
      listed index place other ∧ ¬(other = key ∧ placeOf node = place))
    (freed : List (Key × Node α)) (index : ι) (place : κ) (key : Key) :
    listed (freed.foldl (fun index (key, node) => unfile index key node) index) place key ↔
      listed index place key ∧ ∀ node, (key, node) ∈ freed → placeOf node ≠ place := by
  induction freed generalizing index with
  | nil => simp
  | cons first rest ih =>
      obtain ⟨firstKey, firstNode⟩ := first
      rw [List.foldl_cons, ih, hunfile]
      constructor
      · rintro ⟨⟨hlisted, hfirst⟩, hrest⟩
        refine ⟨hlisted, ?_⟩
        intro node hnode
        rcases List.mem_cons.mp hnode with heq | hnode
        · cases heq
          exact fun hplace => hfirst ⟨rfl, hplace⟩
        · exact hrest node hnode
      · rintro ⟨hlisted, hall⟩
        refine ⟨⟨hlisted, ?_⟩, fun node hnode => hall node (List.mem_cons_of_mem _ hnode)⟩
        rintro ⟨rfl, hplace⟩
        exact hall firstNode List.mem_cons_self hplace

/-- Where the first condition of a pattern is not met, the pattern rejects the element. -/
theorem slotsOf_rejected {C α P E : Type} [Container C α P E] {pattern : P} {element : Element α}
    {rest : List Constraint}
    (hconstraints : Container.constraints C pattern element = .require false :: rest) :
    slotsOf (C := C) pattern element = .ok none := by
  simp [slotsOf, examine, hconstraints, Constraint.solve, Constraint.check]

/-- Matching keeps the number of slots. -/
theorem length_examine {C α P E : Type} [Container C α P E] (pattern : P) (element : Element α)
    (slots : Slots) : (examine (C := C) pattern element slots).2.length = slots.length := by
  rw [examine]
  exact Constraint.length_solve _ slots

/-- Clearing the slots after an element that is rejected makes them empty for the next one. -/
theorem cleans_examine {C α P E : Type} [Container C α P E] (pattern : P) :
    Graph.Cleans (examine (C := C) pattern) Slots.clear
      (List.replicate (Container.slotCount C pattern) none) where
  reset_clean := List.map_replicate
  reset_rejected element slots hrejected := by
    have hlength := length_examine (C := C) pattern element
      (List.replicate (Container.slotCount C pattern) none)
    rw [hrejected, List.length_replicate] at hlength
    rw [← hlength, Slots.clear, List.map_const']

/-- A candidate of a search is decided as it is on its own. -/
theorem verdict_examine {C α P E : Type} [Container C α P E] (pattern : P) (element : Element α) :
    Graph.verdict (examine (C := C) pattern)
        (List.replicate (Container.slotCount C pattern) none) element =
      match slotsOf (C := C) pattern element with
      | .ok found => found.map .ok
      | .error fault => some (.error fault) := by
  simp only [Graph.verdict, slotsOf]
  cases examine (C := C) pattern element (List.replicate (Container.slotCount C pattern) none) with
  | mk accepted slots =>
      cases accepted with
      | error fault => rfl
      | ok accepted => cases accepted <;> rfl

section Slots

variable (C : Type) {α P E : Type} [Container C α P E]

/-- The slots that matching an element against a pattern fills, if it matches. -/
def matchOf (pattern : P) (element : Element α) : Option Slots :=
  (slotsOf (C := C) pattern element).toOption.join

variable {C} {pattern : P} {element : Element α}

theorem slotsOf_eq_some_iff {slots : Slots} :
    slotsOf (C := C) pattern element = .ok (some slots) ↔
      matchOf C pattern element = some slots := by
  cases hslots : slotsOf (C := C) pattern element <;> simp [matchOf, hslots, Except.toOption]

variable [LawfulContainer C α P E]

/-- A pattern that does not name the greatest slot asks for no slot beyond its count. -/
theorem within_of_not_overruns (hfits : ¬Container.Overruns C pattern) (element : Element α) :
    ∀ constraint ∈ Container.constraints C pattern element,
      constraint.Within (Container.slotCount C pattern) := by
  intro constraint hconstraint
  cases constraint with
  | require holds => exact trivial
  | bind slot value =>
      obtain ⟨word, hword, rfl⟩ := LawfulContainer.named hconstraint
      refine lt_slotsNeeded hword fun heq => ?_
      subst heq
      exact hfits hword

/-- Matching ends without a fault, unless the pattern names the greatest slot. -/
theorem slotsOf_eq (hfits : ¬Container.Overruns C pattern) (element : Element α) :
    slotsOf (C := C) pattern element = .ok (matchOf C pattern element) := by
  have hwithin : ∀ constraint ∈ Container.constraints C pattern element,
      constraint.Within (List.replicate (Container.slotCount C pattern) none : Slots).length := by
    simpa using within_of_not_overruns hfits element
  obtain ⟨holds, slots, hsolve, -⟩ := Constraint.solve_unifies hwithin
  cases holds <;> simp [matchOf, slotsOf, examine, hsolve, Except.toOption]

/-- A pattern that names the greatest slot matches nothing: where it fits, it asks for a slot that
does not exist. -/
theorem matchOf_of_overruns (hoverruns : Container.Overruns C pattern) (element : Element α) :
    matchOf C pattern element = none := by
  refine Option.eq_none_iff_forall_ne_some.mpr fun slots hmatch => ?_
  have hslots := slotsOf_eq_some_iff.mpr hmatch
  simp only [slotsOf] at hslots
  split at hslots
  · next hsolve =>
      have hmet := Constraint.met_of_solve hsolve
      obtain ⟨value, hasked⟩ :=
        LawfulContainer.asked (fun constraint hmem => (hmet constraint hmem).1) hoverruns
      have hlt : greatestSlot.toNat < _ := (hmet _ hasked).2
      rw [List.length_replicate] at hlt
      exact absurd hlt (Nat.not_lt.mpr (slotsNeeded_le_greatest _))
  · cases hslots
  · cases hslots

end Slots

end FormalLanguages
