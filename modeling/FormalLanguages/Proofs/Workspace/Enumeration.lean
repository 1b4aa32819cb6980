/-
# Enumeration goes on while everything changes

Between two matches of a search its container may be changed at will: elements are added in front of
the search and behind it, removed wherever they are, reclaimed with their slots used again, and
other searches run at the same time.  The rows that the search produces from its beginning to its
end are nevertheless in order, each is that of an element that was live and selected at that moment,
and nothing that was there at the beginning and has stayed is missing.

A search is at its beginning if it has just been rewound, or if it has not been started, so that its
first step rewinds it.
-/

import FormalLanguages.Proofs.Search.Enumeration
import FormalLanguages.Proofs.Workspace.Following

namespace FormalLanguages

namespace Workspace

variable {C α P E : Type} [Container C α P E]

/-- A row is that of an element which is stored, live and selected in the workspace behind the
command that produced the row. -/
def RowOf (number : Nat) (axis : Axis P) (row : Match × Workspace C P) (element : Element α) :
    Prop :=
  ∃ container, row.2.containers[number]? = some container ∧
    Produces container number axis row.1 element

/-- An element of a container is stored and has not been removed. -/
def Live (workspace : Workspace C P) (number : Nat) (element : Element α) : Prop :=
  ∃ container key, workspace.containers[number]? = some container ∧
    (Container.graph container).element key = .ok element ∧ element.deleted = false

/-- What a search along elements has produced in a run from its beginning. -/
structure Enumerates (workspace : Workspace C P) (name : String) (number : Nat) (axis : Axis P)
    (commands : List (Command P E)) (elements : List (Element α)) : Prop where
  /-- There is a row for each of the elements, live and selected at that moment. -/
  rows : List.Forall₂ (RowOf number axis) (workspace.produced name commands) elements
  /-- The elements are in the order of their groups and of their numbers, so none is repeated. -/
  increasing : elements.Pairwise fun first second => first.place < second.place
  /-- If the search then reports that there is no further match, no element is missing that was
  there at the beginning and is still there. -/
  complete : ∀ after, (workspace.run commands).2.step (.matchNext name) = .ok (.flag false, after) →
    ∀ element slots, workspace.Live number element → axis.Selects C element slots →
      after.Live number element → element ∈ elements

variable [LawfulContainer C α P E] {workspace after : Workspace C P} {name : String}
  {number floor : Nat} {axis : Axis P} {seen : List (Element α)}

/-- A search that is kept is tracked from its beginning. -/
def Tracked (workspace : Workspace C P) (name : String) (number : Nat) (axis : Axis P) (floor : Nat)
    (seen : List (Element α)) : Prop :=
  ∃ container search, workspace.containers[number]? = some container ∧
    workspace.searches.get? name = some search ∧
      Search.Tracks container number axis floor search seen

/-- A search along elements is followed by tracking it. -/
def elementFollower (number floor : Nat) (haxis : axis.AlongElements) :
    Follower C number (Element α) where
  allows _ := True
  tracks container := Search.Tracks container number axis floor
  row container := Produces container number axis
  isBound htracks := by cases htracks <;> rfl
  descends htracks hcontainer _ hheld _ hages hkept :=
    htracks.ages haxis hcontainer hheld hages hkept
  counted hrow hcounts := hrow.recounted hcounts.recounted
  matchNext hall hcontainer _ _ hheld htracks := by
    have ⟨⟨found, next⟩, hnext, hgoes⟩ := htracks.matchNext hall haxis hcontainer hheld
    exact ⟨(found, next), hnext, hgoes⟩

namespace Tracked

omit [LawfulContainer C α P E] in
/-- What a tracked search has produced is in the order of its places. -/
theorem increasing (htracked : workspace.Tracked name number axis floor seen) :
    seen.Pairwise fun first second => first.place < second.place := by
  obtain ⟨container, search, -, -, htracks⟩ := htracked
  exact htracks.increasing

variable (hsound : workspace.Sound) (haxis : axis.AlongElements)
  (htracked : workspace.Tracked name number axis floor seen)

include hsound haxis htracked

/-- A tracked search that reports that there is no further match has produced what is there. -/
theorem complete (hstep : workspace.step (.matchNext name) = .ok (.flag false, after))
    {element : Element α} {slots : Slots} (hlive : after.Live number element)
    (hold : element.id < floor) (hselects : axis.Selects C element slots) : element ∈ seen := by
  have hfollows : (elementFollower number floor haxis).Follows workspace name seen := htracked
  have ⟨_, search, _, hsearch, _⟩ := hfollows
  obtain ⟨found, next, after', hnext, hstep', hexchanged⟩ :=
    hsound.matchNext_step (E := E) hsearch
  obtain ⟨hreply, rfl⟩ := Prod.mk.inj (Except.ok.inj (hstep'.symm.trans hstep))
  obtain rfl := Reply.eq_ok_of_orBroken_flag hreply
  obtain ⟨found', next', hnext', hstepped⟩ := Search.matchNext_spec hsound.containers
    (hsound.fit name search hsearch) (hsound.held hsearch)
  cases hnext.symm.trans hnext'
  obtain ⟨elements, hrows, hafter⟩ := hfollows.matchNext hsound (fun _ _ => trivial) hsearch hnext
    (step_counted hsound.containers id hstep) hexchanged
  cases hrows
  rw [List.append_nil] at hafter
  obtain ⟨container, last, hcontainer, hlast, htracks⟩ := hafter
  cases (get?_of_exchanged hexchanged).symm.trans hlast
  obtain ⟨container', key, hcontainer', helement, hdeleted⟩ := hlive
  cases hcontainer.symm.trans hcontainer'
  exact Search.Tracks.complete htracks (hstepped.exhausted rfl) helement hdeleted hold hselects

/-- A tracked search stays tracked through every run that does not renew it. -/
theorem run {commands : List (Command P E)}
    (hrenews : ∀ command ∈ commands, ¬command.Renews name) :
    ∃ elements, List.Forall₂ (RowOf number axis) (workspace.produced name commands) elements ∧
      (workspace.run commands).2.Tracked name number axis floor (seen ++ elements) := by
  have hfollows : (elementFollower number floor haxis).Follows workspace name seen := htracked
  exact hfollows.run hsound (fun _ _ _ _ _ => trivial) hrenews

end Tracked

variable [Uncounting C α P E]

/-- A search at its beginning is tracked from there, for all elements whose numbers have been given
out. -/
theorem Begins.tracked {start : C}
    (hreached : ∀ count (commands : List (Command P E)), (reached start count commands).Sound)
    (haxis : axis.AlongElements)
    (hbegins : Begins (E := E) start name number axis workspace) :
    ∃ container, workspace.containers[number]? = some container ∧ workspace.Sound ∧
      workspace.Tracked name number axis (Container.graph container).nextId.value [] := by
  obtain ⟨container, search, before, hsound, hcontainer, hsearch, htarget, hbegun⟩ :=
    hbegins.beginning hreached
  refine ⟨container, hcontainer, hsound, container, search, hcontainer, hsearch, ?_⟩
  obtain ⟨target, progress, current⟩ := before
  obtain rfl : target = some (number, axis) := htarget
  rcases hbegun with ⟨rfl, hprogress⟩ | hrewind
  · obtain rfl : progress = .unstarted := hprogress
    exact Search.tracks_unstarted current (Nat.le_refl _)
  · obtain ⟨cursor, hrewind', -, hcovers⟩ := Search.rewind_tracks hsound.containers
      haxis hcontainer (Nat.le_refl _) axis.cursor progress current
    rw [Axis.moveTo_cursor] at hrewind'
    cases hrewind.symm.trans hrewind'
    exact .running hcovers

/-- A search at its beginning enumerates, whatever is done that does not renew it. -/
theorem Begins.enumerates {start : C}
    (hreached : ∀ count (commands : List (Command P E)), (reached start count commands).Sound)
    (haxis : axis.AlongElements)
    (hbegins : Begins (E := E) start name number axis workspace) {commands : List (Command P E)}
    (hrenews : ∀ command ∈ commands, ¬command.Renews name) :
    ∃ elements, workspace.Enumerates name number axis commands elements := by
  obtain ⟨container, hcontainer, hsound, htracked⟩ := hbegins.tracked hreached haxis
  obtain ⟨elements, hrows, hlast⟩ := htracked.run hsound haxis hrenews
  refine ⟨elements, hrows, hlast.increasing, ?_⟩
  intro after hstep element slots hbefore hselects hafter
  obtain ⟨container', key, hcontainer', helement, -⟩ := hbefore
  cases hcontainer.symm.trans hcontainer'
  obtain ⟨entry, hentry, rfl⟩ := Graph.element_eq_ok_iff.mp helement
  have hold : entry.id < (Container.graph container).nextId.value :=
    (LawfulContainer.graph_sound (hsound.containers number container hcontainer)).numbered key
      entry.place (Graph.place?_of_stored hentry)
  exact hlast.complete (hsound.run commands) haxis hstep hafter hold hselects

/-- Whatever is done to grammars, or to automata, a search along elements enumerates from its
beginning: by all of the container or by a pattern, in order and without leaving out what stays. -/
theorem enumeration_under_changes (A : Type) [DecidableEq A] (name : String) (number : Nat) :
    (∀ (axis : Axis Grammar.Pattern) (workspace : Workspace (Grammar A) Grammar.Pattern)
        (commands : List (Command Grammar.Pattern (Grammar.Edit A))), axis.AlongElements →
      Begins (Grammar.empty : Grammar A) name number axis workspace →
      (∀ command ∈ commands, ¬command.Renews name) →
      ∃ elements, workspace.Enumerates name number axis commands elements) ∧
    ∀ (axis : Axis Automaton.Pattern) (workspace : Workspace (Automaton A) Automaton.Pattern)
        (commands : List (Command Automaton.Pattern (Automaton.Edit A))), axis.AlongElements →
      Begins (Automaton.initial : Automaton A) name number axis workspace →
      (∀ command ∈ commands, ¬command.Renews name) →
      ∃ elements, workspace.Enumerates name number axis commands elements := by
  constructor
  · intro axis workspace commands haxis hbegins hrenews
    exact hbegins.enumerates sound_grammars haxis hrenews
  · intro axis workspace commands haxis hbegins hrenews
    exact hbegins.enumerates sound_automata haxis hrenews

/-- A run that fills a grammar and keeps a search of its productions. -/
def filling : List (Command Grammar.Pattern (Grammar.Edit Nat)) :=
  [.edit 0 (.addVariables 2) none,
    .edit 0 (.addProduction (.ofVariable 1) .empty) (some "first"),
    .edit 0 (.addProduction (.ofVariable 2) .empty) (some "second"),
    .edit 0 (.addProduction (.ofVariable 2) (.ofSymbol (.ofVariable 1))) (some "third"),
    .search (some (0, .elements)) "search"]

/-- Changes of that grammar between two matches of the search: the production at its position is
removed but stays stored, the one behind is freed, and a new one is stored in its place. -/
def changing : List (Command Grammar.Pattern (Grammar.Edit Nat)) :=
  [.matchNext "search", .remove 0 "second", .remove 0 "third", .dropHandle "second",
    .dropHandle "third", .reclaim 0,
    .edit 0 (.addProduction (.ofVariable 2) (.ofSymbol (.ofVariable 2))) none,
    .drain "search" none]

/-- A run that fills an automaton and keeps a search of what leaves one of its states. -/
def connecting : List (Command Automaton.Pattern (Automaton.Edit Nat)) :=
  [.edit 0 (.addStates 1) none,
    .edit 0 (.addTransition ⟨⟨.epsilon, .epsilon, .epsilon, 0⟩, 1⟩) none,
    .edit 0 (.addTransition ⟨⟨.epsilon, .epsilon, .epsilon, 1⟩, 0⟩) none,
    .search (some (0, .matching { source := .is 1 })) "search"]

/-- A search that has not been started and one that has just been rewound enumerate. -/
theorem enumeration_under_changes_runs :
    (∃ elements : List (Element SymbolString),
      (reached (Grammar.empty : Grammar Nat) 1 filling).Enumerates "search" 0 (.elements none)
        changing elements ∧ elements.length = 2) ∧
    ∃ after, ∃ elements : List (Element Move),
      (reached (Automaton.initial : Automaton Nat) 1 connecting).step (.rewind "search") =
        .ok (.done, after) ∧
      after.Enumerates "search" 0 (.matching ⟨0, { source := .is 1 }⟩ none)
        [.drain "search" none] elements ∧ elements.length = 1 := by
  have hsearch : (reached (Grammar.empty : Grammar Nat) 1 filling).searches.get? "search" =
      some (.along 0 (.elements none)) := rfl
  have hsearch' : (reached (Automaton.initial : Automaton Nat) 1 connecting).searches.get?
      "search" = some (.along 0 (.matching ⟨0, { source := .is 1 }⟩ none)) := rfl
  constructor
  · obtain ⟨elements, henumerates⟩ := (enumeration_under_changes Nat "search" 0).1 (.elements none)
      _ changing trivial (.unstarted hsearch rfl rfl) (by simp [changing, Command.Renews])
    exact ⟨elements, henumerates, henumerates.rows.length_eq.symm.trans (by decide +kernel)⟩
  · obtain ⟨after, hstep⟩ : ∃ after,
        (reached (Automaton.initial : Automaton Nat) 1 connecting).step (.rewind "search") =
          .ok (.done, after) := ⟨_, rfl⟩
    obtain ⟨elements, henumerates⟩ := (enumeration_under_changes Nat "search" 0).2
      (.matching ⟨0, { source := .is 1 }⟩ none) _ [.drain "search" none] trivial
      (.rewound hsearch' rfl hstep) (by simp [Command.Renews])
    refine ⟨after, elements, hstep, henumerates, henumerates.rows.length_eq.symm.trans ?_⟩
    cases hstep
    decide +kernel

end Workspace

end FormalLanguages
