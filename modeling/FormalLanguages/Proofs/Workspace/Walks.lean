/-
# Every walk goes up and ends

The elements of a container are ordered by group and number.  Links and tables of groups know
nothing of this order, but following them goes through it: the first element is the least one, and
the one that follows another is the least one behind it, of its group if the walk is confined and of
all groups otherwise, however many groups without elements lie in between.  Tombstones are met like
any other element.  A walk meets what lies behind it no more, so it ends, and what is left for it to
meet is the measure of it.

Searches walk over what they do not look for.  Stepping over tombstones, and over live elements that
do not match, therefore ends as well, at the least element that is looked for, or where there is
none from the position on.
-/

import FormalLanguages.Proofs.Search.Enumeration
import FormalLanguages.Proofs.Workspace.Chains

namespace FormalLanguages

namespace Graph

variable {α β : Type} {graph : Graph α} {key : Key} {keys : List Key} {confined : Bool}
  {cursor : Option Key} {region : Place → Prop} {wanted : Element α → Prop}

/-- The first of the stored elements that are wanted, by group and number, or nothing if none is
wanted. -/
structure Least (graph : Graph α) (wanted : Element α → Prop) (first : Option Key) : Prop where
  eq_none_iff : first = none ↔ ∀ key element, graph.element key = .ok element → ¬wanted element
  least : ∀ key, first = some key → ∃ element, graph.element key = .ok element ∧ wanted element ∧
    ∀ other found, graph.element other = .ok found → wanted found →
      other = key ∨ element.place < found.place

/-- Finding the next element again and again from a cursor ends, and meets each of the stored
elements that are wanted once, by group and number. -/
structure Visits (graph : Graph α) (confined : Bool) (wanted : Element α → Prop)
    (cursor : Option Key) (keys : List Key) : Prop where
  trail : graph.Trail confined cursor keys
  nodup : keys.Nodup
  mem_iff : ∀ key, key ∈ keys ↔ ∃ element, graph.element key = .ok element ∧ wanted element
  increasing : keys.Pairwise fun first second => ∀ element other,
    graph.element first = .ok element → graph.element second = .ok other →
      element.place < other.place

/-- A graph whose walks follow the order of its elements. -/
structure Walkable (graph : Graph α) : Prop where
  /-- The groups are met in the order of their numbers. -/
  sequenced : graph.Sequenced
  /-- The first element is the least one, and a walk from there meets every element. -/
  firstElement : ∃ first keys, graph.firstElement = .ok first ∧
    graph.Least (fun _ => True) first ∧ graph.Visits false (fun _ => True) first keys
  /-- The next element is the least one behind, in all groups or in the same one. -/
  findNext : ∀ confined key element, graph.element key = .ok element →
    ∃ next, graph.findNext key confined = .ok next ∧
      graph.Least (fun other => Behind confined element.place other.place) next
  /-- A walk from anywhere meets the elements from there on. -/
  visits : ∀ confined cursor, graph.Positioned cursor →
    ∃ keys, graph.Visits confined (fun element => graph.Onward confined cursor element.place)
      cursor keys
  /-- Stepping over tombstones from anywhere ends at the least live element from there on. -/
  nextLive : ∀ confined cursor, graph.Positioned cursor →
    ∃ found, graph.nextLive confined cursor = .ok found ∧
      graph.Least (fun element => element.deleted = false ∧
        graph.Onward confined cursor element.place) found

theorem Least.congr {others : Element α → Prop} {first : Option Key}
    (hleast : graph.Least wanted first) (hsame : ∀ element, wanted element ↔ others element) :
    graph.Least others first := by
  have hwanted : wanted = others := funext fun element => propext (hsame element)
  rwa [← hwanted]

theorem Ahead.visits (hahead : graph.Ahead confined region cursor keys) :
    graph.Visits confined (fun element => region element.place) cursor keys where
  trail := hahead.trail
  nodup := hahead.nodup
  mem_iff key := (hahead.mem_iff key).trans exists_place_iff
  increasing := by
    apply hahead.increasing.imp
    intro first second hlt element other helement hother
    rwa [placeAt_of_element helement, placeAt_of_element hother] at hlt

/-- A walk begins at the least of the elements that it meets. -/
theorem Visits.least (hvisits : graph.Visits confined wanted cursor keys) :
    graph.Least wanted cursor where
  eq_none_iff := by
    rw [hvisits.trail.eq_head?, List.head?_eq_none_iff, List.eq_nil_iff_forall_not_mem]
    simp only [hvisits.mem_iff, not_exists, not_and]
  least key hcursor := by
    cases keys with
    | nil => cases hcursor.symm.trans hvisits.trail.eq_head?
    | cons first rest =>
        obtain rfl : key = first :=
          Option.some.inj (hcursor.symm.trans hvisits.trail.eq_head?)
        obtain ⟨element, helement, hwanted⟩ := (hvisits.mem_iff key).mp List.mem_cons_self
        refine ⟨element, helement, hwanted, ?_⟩
        intro other found hfound hother
        have hmem := (hvisits.mem_iff other).mpr ⟨found, hfound, hother⟩
        apply (List.mem_cons.mp hmem).imp id
        intro hrest
        exact (List.pairwise_cons.mp hvisits.increasing).1 other hrest element found helement hfound

/-- What is looked for from a cursor on. -/
def Sought (graph : Graph α) (confined : Bool) (accepts : Element α → Option β)
    (cursor : Option Key) (element : Element α) : Prop :=
  element.deleted = false ∧ graph.Onward confined cursor element.place ∧ accepts element ≠ none

section Seek

variable {accepts : Element α → Option β}

theorem Found.least_sought {entry : Entry α} {value : β} {next : Option Key}
    (hfound : graph.Found confined accepts cursor key entry value next) :
    graph.Least (graph.Sought confined accepts cursor) (some key) where
  eq_none_iff := by
    have helement := element_eq_ok_iff.mpr ⟨entry, hfound.entry_eq, rfl⟩
    have haccepted : accepts entry.toElement ≠ none :=
      hfound.accepted ▸ Option.some_ne_none value
    simp only [reduceCtorEq, false_iff]
    exact fun hnone => hnone key _ helement ⟨hfound.live, hfound.onward, haccepted⟩
  least first hfirst := by
    cases hfirst
    refine ⟨entry.toElement, element_eq_ok_iff.mpr ⟨entry, hfound.entry_eq, rfl⟩, ⟨hfound.live,
      hfound.onward, hfound.accepted ▸ Option.some_ne_none value⟩, ?_⟩
    rintro other element hother ⟨hlive, honward, haccepted⟩
    obtain ⟨found, hstored, rfl⟩ := element_eq_ok_iff.mp hother
    exact (hfound.least other found hstored hlive haccepted honward).imp id And.left

theorem least_none (hnone : ∀ key entry, graph.stored? key = some entry → entry.deleted = false →
    graph.Onward confined cursor entry.place → accepts entry.toElement = none) :
    graph.Least (graph.Sought confined accepts cursor) none where
  eq_none_iff := by
    simp only [true_iff]
    rintro key element helement ⟨hlive, honward, haccepted⟩
    obtain ⟨entry, hentry, rfl⟩ := element_eq_ok_iff.mp helement
    exact haccepted (hnone key entry hentry hlive honward)
  least key hkey := by cases hkey

end Seek

namespace Sound

variable (hsound : graph.Sound)

include hsound

theorem nextLive_least (confined : Bool) (hpositioned : graph.Positioned cursor) :
    ∃ found, graph.nextLive confined cursor = .ok found ∧
      graph.Least (fun element => element.deleted = false ∧
        graph.Onward confined cursor element.place) found := by
  have hsought (element : Element α) :
      graph.Sought confined (fun _ => some ()) cursor element ↔
        element.deleted = false ∧ graph.Onward confined cursor element.place := by
    simp [Sought]
  obtain ⟨keys, hahead⟩ := ahead_onward hsound confined hpositioned
  have hlive := hahead.trail.nextLive_eq hahead.length_le
  rcases hahead.first_found (fun _ => some ()) hsound with
    ⟨hfirst, hnone⟩ | ⟨key, entry, value, next, hfirst, hfound⟩
  · rw [hfirst] at hlive
    exact ⟨none, hlive, (least_none hnone).congr hsought⟩
  · rw [hfirst] at hlive
    exact ⟨some key, hlive, hfound.least_sought.congr hsought⟩

theorem walkable : graph.Walkable where
  sequenced := hsound.sequenced
  firstElement := by
    obtain ⟨first, keys, hfirst, hahead⟩ := ahead_firstElement hsound
    exact ⟨first, keys, hfirst, hahead.visits.least, hahead.visits⟩
  findNext confined key element helement := by
    obtain ⟨entry, hentry, rfl⟩ := element_eq_ok_iff.mp helement
    obtain ⟨next, rest, hnext, hahead⟩ :=
      ahead_behind hsound confined (place?_of_stored hentry)
    exact ⟨next, hnext, hahead.visits.least⟩
  visits confined cursor hpositioned := by
    obtain ⟨keys, hahead⟩ := ahead_onward hsound confined hpositioned
    exact ⟨keys, hahead.visits⟩
  nextLive confined cursor := hsound.nextLive_least confined

end Sound

end Graph

namespace Workspace

variable {C α P E : Type} [Container C α P E]

/-- Wherever a search along elements is positioned, going on ends: at the least live element from
there on that its axis selects, or at the end of the search if there is none, or in a fault if its
pattern names the greatest slot. -/
def Proceeds (workspace : Workspace C P) (number : Nat) (container : C) : Prop :=
  ∀ (axis : Axis P) (current : Match), axis.AlongElements →
    (Container.graph container).Positioned axis.cursor →
      ∃ verdict after,
        Search.matchNext workspace.containers ⟨some (number, axis), .running, current⟩ =
          .ok (verdict, after) ∧
        ((∃ found, verdict = .ok found.isSome ∧
            after.current.element = found.map (Handle.mk number) ∧
            (Container.graph container).Least (fun element => element.deleted = false ∧
              (Container.graph container).Onward (axis.scope C).isSome axis.cursor element.place ∧
              ∃ slots, axis.Selects C element slots) found) ∨
          axis.Overruns C ∧ ∃ fault, verdict = .error fault)

variable [LawfulContainer C α P E] {workspace : Workspace C P} {number : Nat} {container : C}

theorem Sound.proceeds (hsound : workspace.Sound)
    (hcontainer : workspace.containers[number]? = some container) :
    workspace.Proceeds number container := by
  intro axis current haxis hpositioned
  have hselects (element : Element α) :
      (Container.graph container).Sought (axis.scope C).isSome (axis.accepts C) axis.cursor
          element ↔
        element.deleted = false ∧
          (Container.graph container).Onward (axis.scope C).isSome axis.cursor element.place ∧
          ∃ slots, axis.Selects C element slots := by
    simp only [Graph.Sought, Option.ne_none_iff_exists', Axis.selects_iff]
  rcases Axis.advance_along (hsound.containers number container hcontainer) haxis hpositioned
      number with ⟨hadvance, hnone⟩ | ⟨key, entry, slots, next, hadvance, hfound⟩ |
        ⟨fault, hadvance, hoverruns⟩
  · refine ⟨.ok false, Search.exhaust ⟨some (number, axis), .running, current⟩, ?_,
      .inl ⟨none, rfl, rfl, (Graph.least_none hnone).congr hselects⟩⟩
    simp [Search.matchNext, Search.advance, containerAt_eq hcontainer, hadvance]
  · let found : Match := { element := some ⟨number, key⟩, group := some entry.group, slots }
    refine ⟨.ok true, ⟨some (number, axis.moveTo next), .running, found⟩, ?_,
      .inl ⟨some key, rfl, rfl, hfound.least_sought.congr hselects⟩⟩
    simp [Search.matchNext, Search.advance, containerAt_eq hcontainer, hadvance, found]
  · refine ⟨.error fault, Search.lose ⟨some (number, axis), .running, current⟩, ?_,
      .inr ⟨hoverruns, fault, rfl⟩⟩
    simp [Search.matchNext, Search.advance, containerAt_eq hcontainer, hadvance]

/-- Whatever is done to grammars, or to automata, walks through one of them follow the order of its
elements, and searches proceed. -/
theorem walks_ascend (A : Type) [DecidableEq A] (count number : Nat) :
    (∀ (commands : List (Command Grammar.Pattern (Grammar.Edit A))) (grammar : Grammar A),
      (reached (Grammar.empty : Grammar A) count commands).containers[number]? = some grammar →
        grammar.graph.Walkable ∧
          (reached (Grammar.empty : Grammar A) count commands).Proceeds number grammar) ∧
    ∀ (commands : List (Command Automaton.Pattern (Automaton.Edit A))) (automaton : Automaton A),
      (reached (Automaton.initial : Automaton A) count commands).containers[number]? =
        some automaton →
        automaton.graph.Walkable ∧
          (reached (Automaton.initial : Automaton A) count commands).Proceeds number automaton := by
  constructor
  · intro commands grammar hgrammar
    have hsound := sound_grammars count commands
    have hgraph := LawfulContainer.graph_sound (hsound.containers number grammar hgrammar)
    exact ⟨hgraph.walkable, hsound.proceeds hgrammar⟩
  · intro commands automaton hautomaton
    have hsound := sound_automata count commands
    have hgraph := LawfulContainer.graph_sound (hsound.containers number automaton hautomaton)
    exact ⟨hgraph.walkable, hsound.proceeds hautomaton⟩

/-- A run after which the first production of all and the first one of the fourth variable are
tombstones, and the two variables in between have no productions. -/
def sparse : List (Command Grammar.Pattern (Grammar.Edit Nat)) :=
  [.edit 0 (.addVariables 5) none,
    .edit 0 (.addProduction (.ofVariable 1) .empty) (some "first"),
    .edit 0 (.addProduction (.ofVariable 4) .empty) (some "fourth"),
    .edit 0 (.addProduction (.ofVariable 1) (.ofSymbol (.ofVariable 1))) none,
    .edit 0 (.addProduction (.ofVariable 4) (.ofSymbol (.ofVariable 1))) none,
    .remove 0 "first", .remove 0 "fourth"]

/-- A run after which the only transition of the third state is a tombstone. -/
def stranded : List (Command Automaton.Pattern (Automaton.Edit Nat)) :=
  [.edit 0 (.addStates 3) none,
    .edit 0 (.addTransition ⟨⟨.epsilon, .epsilon, .epsilon, 0⟩, 2⟩) (some "third"),
    .edit 0 (.addTransition ⟨⟨.epsilon, .epsilon, .epsilon, 0⟩, 0⟩) none,
    .remove 0 "third"]

/-- A walk goes from the first variable to a tombstone of the fourth one, unless it is confined, and
from there on to a live production.  Behind the tombstone of the third state it ends. -/
theorem walks_ascend_sparse :
    (∃ grammar, (reached (Grammar.empty : Grammar Nat) 1 sparse).containers[0]? = some grammar ∧
      (grammar.graph.Walkable ∧
        (reached (Grammar.empty : Grammar Nat) 1 sparse).Proceeds 0 grammar) ∧
      grammar.graph.firstElement = .ok (some ⟨0, 0⟩) ∧
      grammar.graph.findNext ⟨2, 0⟩ false = .ok (some ⟨1, 0⟩) ∧
      grammar.graph.findNext ⟨2, 0⟩ true = .ok none ∧
      grammar.graph.nextLive true (some ⟨1, 0⟩) = .ok (some ⟨3, 0⟩)) ∧
    ∃ automaton, (reached (Automaton.initial : Automaton Nat) 1 stranded).containers[0]? =
        some automaton ∧
      (automaton.graph.Walkable ∧
        (reached (Automaton.initial : Automaton Nat) 1 stranded).Proceeds 0 automaton) ∧
      automaton.graph.findNext ⟨1, 0⟩ false = .ok (some ⟨0, 0⟩) ∧
      automaton.graph.nextLive false (some ⟨0, 0⟩) = .ok none :=
  ⟨⟨_, rfl, (walks_ascend Nat 1 0).1 _ _ rfl, by decide +kernel⟩,
    ⟨_, rfl, (walks_ascend Nat 1 0).2 _ _ rfl, by decide +kernel⟩⟩

end Workspace

end FormalLanguages
