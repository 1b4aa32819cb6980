/-
# A search for variables shows those that have a live production

A search for variables does not look at the productions of every variable.  It starts at the
variable of the first production that is stored, which may have been removed, and may even be freed
while the search is running, and it asks of each variable from there on whether any production in
its chain is live.

Nothing is lost by starting late.  A production that is live is stored, so its variable is not in
front of the first one that has any.  A variable that has a live production all the time is
therefore neither left out at the beginning nor passed over, whatever is added, removed or reclaimed
while the search goes on.
-/

import FormalLanguages.Proofs.Concealing
import FormalLanguages.Proofs.Workspace.Enumeration
import FormalLanguages.Proofs.Workspace.Numbers
import FormalLanguages.Proofs.Workspace.Writing

namespace FormalLanguages

namespace Workspace

variable {A : Type} [DecidableEq A] {grammar : Grammar A}
  {workspace after : Workspace (Grammar A) Grammar.Pattern} {name : String}
  {number group : Nat}

/-- The variable that owns a group has a live production. -/
def Productive (workspace : Workspace (Grammar A) Grammar.Pattern) (number group : Nat) : Prop :=
  ∃ element, workspace.Live number element ∧ element.group = group

/-- What a search for variables has produced in a run from its beginning. -/
structure Surveys (workspace : Workspace (Grammar A) Grammar.Pattern) (name : String)
    (number : Nat) (commands : List (Command Grammar.Pattern (Grammar.Edit A)))
    (groups : List Nat) : Prop where
  /-- There is a row for each of the groups, and a live production in the group at that moment. -/
  rows : List.Forall₂
    (fun row group => row.1 = ({ group := some group } : Match) ∧ row.2.Productive number group)
    (workspace.produced name commands) groups
  /-- The groups are in order, so none is repeated. -/
  increasing : groups.Pairwise (· < ·)
  /-- If the search has come to its end, no group is missing in which there was a live production
  all the time. -/
  complete : (workspace.run commands).2.Exhausted name →
    ∀ group, (∀ earlier later, commands = earlier ++ later →
      (workspace.run earlier).2.Productive number group) → group ∈ groups

section Showing

variable (hsound : workspace.Sound) (hgrammar : workspace.containers[number]? = some grammar)

include hsound hgrammar

/-- The variables that have a live production are those that a search shows. -/
theorem productive_iff_shows (offset : Nat) :
    workspace.Productive number group ↔
      (Axis.groups offset : Axis Grammar.Pattern).Shows grammar group := by
  have hgraph := LawfulContainer.graph_sound (hsound.containers number grammar hgrammar)
  have ⟨shown, hshown, hiff⟩ := Graph.hasLive_spec hgraph group
  have hshows : (Axis.groups offset : Axis Grammar.Pattern).Shows grammar group ↔ shown = true := by
    show grammar.graph.hasLive group = .ok true ↔ _
    rw [show grammar.graph.hasLive group = .ok shown from hshown, Except.ok.injEq]
  rw [hshows, hiff]
  constructor
  · intro ⟨element, ⟨container, key, hcontainer, helement, hlive⟩, hgroup⟩
    cases hgrammar.symm.trans hcontainer
    have ⟨entry, hentry, heq⟩ := Graph.element_eq_ok_iff.mp helement
    cases heq
    exact ⟨key, entry, hentry, hlive, hgroup⟩
  · intro ⟨key, entry, hentry, hlive, hgroup⟩
    have helement := Graph.element_of_stored hentry
    exact ⟨entry.toElement, ⟨grammar, key, hgrammar, helement, hlive⟩, hgroup⟩

/-- Counting references does not change which variables have a live production. -/
theorem productive_counted (hafter : after.Sound)
    (hcounted : Counted workspace.containers after.containers) :
    after.Productive number group ↔ workspace.Productive number group := by
  have ⟨now, hnow, hcounts⟩ := hcounted.counts number grammar hgrammar
  rw [productive_iff_shows hafter hnow 0, productive_iff_shows hsound hgrammar 0]
  exact Axis.shows_congr hcounts.uncounted_eq group

/-- A variable that has a live production exists. -/
theorem Productive.has (hproductive : workspace.Productive number group) (offset : Nat) :
    (Axis.groups offset : Axis Grammar.Pattern).Has grammar group := by
  have ⟨element, ⟨container, key, hcontainer, helement, _⟩, hgroup⟩ := hproductive
  cases hgrammar.symm.trans hcontainer
  have ⟨entry, hentry, heq⟩ := Graph.element_eq_ok_iff.mp helement
  have hgraph := LawfulContainer.graph_sound (hsound.containers number grammar hgrammar)
  have hlt := hgraph.grouped key entry.place (Graph.place?_of_stored hentry)
  rw [← hgroup, ← heq]
  exact hlt

/-- A variable that has a live production is not left out by a search that starts or goes on. -/
theorem Productive.admits (hproductive : workspace.Productive number group) (offset : Nat) :
    (Axis.groups offset : Axis Grammar.Pattern).Admits grammar group := by
  constructor
  · intro first hstart
    have ⟨element, ⟨container, key, hcontainer, helement, _⟩, hgroup⟩ := hproductive
    cases hgrammar.symm.trans hcontainer
    have ⟨entry, hentry, heq⟩ := Graph.element_eq_ok_iff.mp helement
    have hfirst : grammar.firstGroup = .ok first := by
      have ⟨found, hfound, hsame⟩ := bind_eq_ok.mp hstart
      cases hsame
      exact hfound
    have hgrammarSound : grammar.Sound := hsound.containers number grammar hgrammar
    rw [← hgroup, ← heq]
    exact (hgrammarSound.firstGroup_le hfirst).2 key entry hentry
  · exact fun _ => (productive_iff_shows hsound hgrammar offset).mp hproductive

end Showing

/-- A search for variables surveys those that have a live production, from its beginning on. -/
theorem Begins.surveys {offset : Nat}
    (hbegins : Begins (Grammar.empty : Grammar A) name number (.groups offset) workspace)
    {commands : List (Command Grammar.Pattern (Grammar.Edit A))}
    (hrenews : ∀ command ∈ commands, ¬command.Renews name) :
    ∃ groups, workspace.Surveys name number commands groups := by
  let axis : Axis Grammar.Pattern := .groups offset
  have haxis : axis.AlongNumbers := trivial
  let lasting (group : Nat) : Prop := ∀ earlier later, commands = earlier ++ later →
    (workspace.run earlier).2.Productive number group
  have ⟨_, _, _, hsound, _⟩ := hbegins.beginning sound_grammars
  have ⟨_, hfollows⟩ : workspace.Sound ∧
      (numberFollower number haxis lasting lasting).Follows workspace name [] :=
    hbegins.follows_numbers sound_grammars haxis fun grammar hgrammar group hlasting =>
      (hlasting [] commands rfl).admits hsound hgrammar offset
  have hallows (earlier later : List (Command Grammar.Pattern (Grammar.Edit A)))
      (hsplit : commands = earlier ++ later) :
      (numberFollower number haxis lasting lasting).Allows (workspace.run earlier).2 := by
    intro grammar hgrammar
    have hearlier := hsound.run earlier
    constructor
    · intro group hlasting
      exact (hlasting earlier later hsplit).admits hearlier hgrammar offset
    · intro group hlasting
      exact (hlasting earlier later hsplit).has hearlier hgrammar offset
  have ⟨groups, hrows, hlast⟩ := hfollows.run hsound hallows hrenews
  have ⟨grammar, search, hgrammar, hsearch, hscans⟩ := hlast
  refine ⟨groups, ?_, hscans.increasing, ?_⟩
  · have hsounds := hsound.produced name commands
    exact ((List.forall₂_and_left _ _).mpr ⟨hsounds, hrows⟩).imp
      fun row group ⟨hrowSound, now, hnow, hfound, hshows⟩ =>
        ⟨hfound, (productive_iff_shows hrowSound hnow offset).mpr hshows⟩
  · intro ⟨search', hsearch', hexhausted⟩ group hlasting
    cases hsearch.symm.trans hsearch'
    exact hscans.complete hexhausted group hlasting hlasting

/-- A new search for variables begins and is drained, and neither changes which variables have a
live production. -/
theorem drain_begins {count : Nat} {commands : List (Command Grammar.Pattern (Grammar.Edit A))}
    (hreached : reached (Grammar.empty : Grammar A) count commands = workspace)
    (hgrammar : workspace.containers[number]? = some grammar) (name : String) :
    let request : Command Grammar.Pattern (Grammar.Edit A) := .search (some (number, .groups)) name
    let draining : Command Grammar.Pattern (Grammar.Edit A) := .drain name none
    ∃ asked drained rows, workspace.step request = .ok (.done, asked) ∧
      asked.step draining = .ok (.rows rows, drained) ∧
      Begins (Grammar.empty : Grammar A) name number (.groups 0) asked ∧
      drained.Exhausted name ∧
      (∀ group, asked.Productive number group ↔ workspace.Productive number group) ∧
      ∀ group, drained.Productive number group ↔ workspace.Productive number group := by
  intro request draining
  have hsound : workspace.Sound := hreached ▸ sound_grammars count commands
  have haxis : workspace.axisOf .groups = .ok (.groups 0, workspace) := rfl
  obtain ⟨asked, hask, hkept⟩ := hsound.search_step (E := Grammar.Edit A) hgrammar haxis rfl name
  have hsearch := get?_of_exchanged hkept
  have hfits :
      ¬(Search.along number (.groups 0) : Search Grammar.Pattern).Overruns (Grammar A) := by
    rintro ⟨_, _, htarget, hoverruns⟩
    cases htarget
    exact hoverruns
  obtain ⟨rows, last, drained, htake, hdrain, hwritten⟩ :=
    hkept.sound.drain_fitting_step (E := Grammar.Edit A) hsearch hfits none
  obtain ⟨_, _, hended⟩ := Search.take_of_drain htake
  -- Neither command has done more to the grammar than count references.
  have hcountedAsked := step_counted hsound.containers id hask
  have hcountedDrained := step_counted hkept.sound.containers id hdrain
  obtain ⟨_, hgrammarAsked, _⟩ := hcountedAsked.counts number grammar hgrammar
  have hproductive (group : Nat) :
      asked.Productive number group ↔ workspace.Productive number group :=
    productive_counted hsound hgrammar hkept.sound hcountedAsked
  refine ⟨asked, drained, rows, hask, hdrain, ?_,
    ⟨last, get?_of_exchanged hwritten, hended rows rfl⟩, hproductive,
    fun group => ?_⟩
  · have hasked : reached Grammar.empty count (commands ++ [request]) = asked := by
      rw [reached, run_append]
      show ((reached (Grammar.empty : Grammar A) count commands).run [request]).2 = asked
      simp only [request, hreached, run, hask]
    rw [← hasked] at hsearch ⊢
    exact .unstarted hsearch rfl rfl
  · exact (productive_counted hkept.sound hgrammarAsked hwritten.sound hcountedDrained).trans
      (hproductive group)

/-- A new search for variables is drained of those that have a live production. -/
theorem drain_productive {count : Nat}
    {commands : List (Command Grammar.Pattern (Grammar.Edit A))}
    (hreached : reached (Grammar.empty : Grammar A) count commands = workspace)
    (hgrammar : workspace.containers[number]? = some grammar) (name : String) :
    ∃ groups : List Nat, (workspace.run
        ([.search (some (number, .groups)) name, .drain name none] :
          List (Command Grammar.Pattern (Grammar.Edit A)))).1 =
            [.ok .done, .ok (.rows (groups.map fun group => { group := some group }))] ∧
      groups.Pairwise (· < ·) ∧ ∀ group, group ∈ groups ↔ workspace.Productive number group := by
  let draining : Command Grammar.Pattern (Grammar.Edit A) := .drain name none
  obtain ⟨asked, drained, rows, hask, hdrain, hbegins, hexhausted, hproductiveAsked,
    hproductiveDrained⟩ := drain_begins hreached hgrammar name
  obtain ⟨groups, hsurveys⟩ : ∃ groups, asked.Surveys name number [draining] groups :=
    hbegins.surveys fun command hcommand => by cases List.mem_singleton.mp hcommand; exact id
  have hproduced : asked.produced name [draining] = rows.map (·, drained) := by
    simp [draining, produced, hdrain, rowsOf]
  have hrun : (asked.run [draining]).2 = drained := by simp only [draining, run, hdrain]
  have hsurveyed : List.Forall₂
      (fun group row => drained.Productive number group ∧ { group := some group } = row)
      groups rows := by
    have hrows := hsurveys.rows
    rw [hproduced, List.forall₂_map_left_iff] at hrows
    exact (hrows.imp fun row group hsurveyed => ⟨hsurveyed.2, hsurveyed.1.symm⟩).flip
  obtain ⟨hproductive, hrows⟩ := (List.forall₂_and_left _ _).mp hsurveyed
  rw [← List.forall₂_map_left_iff, List.forall₂_eq_eq_eq] at hrows
  refine ⟨groups, ?_, hsurveys.increasing, fun group => ⟨fun hgroup => ?_, fun hgroup => ?_⟩⟩
  · simp only [run, hask, hdrain, hrows]
  · exact (hproductiveDrained group).mp (hproductive group hgroup)
  · apply hsurveys.complete
    · rwa [hrun]
    · intro earlier later hsplit
      cases earlier with
      | nil => exact (hproductiveAsked group).mpr hgroup
      | cons command rest =>
          obtain ⟨rfl, hnil⟩ := List.cons.inj hsplit
          obtain ⟨rfl, -⟩ := List.append_eq_nil_iff.mp hnil.symm
          rw [hrun]
          exact (hproductiveDrained group).mpr hgroup

/-- A search for variables finds those that have a live production: when nothing is changed exactly
these, and otherwise those that have one when they are found, and all that have one throughout. -/
theorem variables_found_productive (A : Type) [DecidableEq A] (name : String) (number : Nat) :
    (∀ (count : Nat) (commands : List (Command Grammar.Pattern (Grammar.Edit A))),
      number < count →
      ∃ groups : List Nat, ((reached (Grammar.empty : Grammar A) count commands).run
          [.search (some (number, .groups)) name, .drain name none]).1 =
            [.ok .done, .ok (.rows (groups.map fun group => { group := some group }))] ∧
        groups.Pairwise (· < ·) ∧
        ∀ group, group ∈ groups ↔
          (reached (Grammar.empty : Grammar A) count commands).Productive number group) ∧
    ∀ (offset : Nat) (workspace : Workspace (Grammar A) Grammar.Pattern)
      (commands : List (Command Grammar.Pattern (Grammar.Edit A))),
      Begins (Grammar.empty : Grammar A) name number (.groups offset) workspace →
      (∀ command ∈ commands, ¬command.Renews name) →
      ∃ groups, workspace.Surveys name number commands groups := by
  constructor
  · intro count commands hnumber
    have hstart : (reached (Grammar.empty : Grammar A) count
        ([] : List (Command Grammar.Pattern (Grammar.Edit A)))).containers[number]? =
          some Grammar.empty := container_of_lt hnumber
    have ⟨grammar, hgrammar, _⟩ :=
      ((sound_grammars count []).run_descends commands).descends number _ hstart
    exact drain_productive rfl hgrammar name
  · intro offset workspace commands hbegins hrenews
    exact hbegins.surveys hrenews

/-- A run after which the first production that is stored has been removed, but is still referred
to. -/
def thinning : List (Command Grammar.Pattern (Grammar.Edit Nat)) :=
  [.edit 0 (.addVariables 3) none,
    .edit 0 (.addProduction (.ofVariable 1) .empty) (some "first"),
    .edit 0 (.addProduction (.ofVariable 2) .empty) none,
    .edit 0 (.addProduction (.ofVariable 3) .empty) (some "third"),
    .remove 0 "first", .search (some (0, .groups)) "search"]

/-- Going on with the search that is kept then while the first production is freed and the last one
is replaced. -/
def replanting : List (Command Grammar.Pattern (Grammar.Edit Nat)) :=
  [.matchNext "search", .dropHandle "first", .reclaim 0,
    .edit 0 (.addProduction (.ofVariable 3) (.ofSymbol (.ofVariable 1))) none, .remove 0 "third",
    .matchNext "search", .matchNext "search"]

/-- The first variable has no live production any more and is not found; the others are. -/
theorem variables_found_productive_runs :
    (∀ group, (reached (Grammar.empty : Grammar Nat) 1 thinning).Productive 0 group ↔
      group ∈ [1, 2]) ∧
    (reached (Grammar.empty : Grammar Nat) 1 thinning).Surveys "search" 0 replanting [1, 2] := by
  have hfound := variables_found_productive Nat "search" 0
  have hsearch : (reached (Grammar.empty : Grammar Nat) 1 thinning).searches.get? "search" =
      some (.along 0 (.groups 0)) := rfl
  have hgroups (groups : List Nat)
      (hrows : groups.map (fun group => ({ group := some group } : Match)) =
        [1, 2].map fun group => { group := some group }) : groups = [1, 2] := by
    apply List.map_injective_iff.mpr _ hrows
    intro first second hsame
    cases hsame
    rfl
  constructor
  · have ⟨groups, hanswers, _, hiff⟩ := hfound.1 1 thinning (by decide)
    have hdrained : ((reached (Grammar.empty : Grammar Nat) 1 thinning).run
        [.search (some (0, .groups)) "search", .drain "search" none]).1 =
          [.ok .done, .ok (.rows ([1, 2].map fun group => { group := some group }))] := rfl
    have hrows := hanswers.symm.trans hdrained
    simp only [List.cons.injEq, Except.ok.injEq, Reply.rows.injEq, true_and, and_true] at hrows
    rw [← hgroups groups hrows]
    exact fun group => (hiff group).symm
  · have ⟨groups, hsurveys⟩ := hfound.2 0 _ replanting (.unstarted hsearch rfl rfl)
      (by simp [replanting, Command.Renews])
    have hproduced : ((reached (Grammar.empty : Grammar Nat) 1 thinning).produced "search"
        replanting).map Prod.fst = [1, 2].map fun group => { group := some group } := rfl
    have hrows := map_eq_of_forall₂ (hsurveys.rows.imp fun row group hrow => hrow.1)
    rw [← hgroups groups (hrows.symm.trans hproduced)]
    exact hsurveys

end Workspace

end FormalLanguages
