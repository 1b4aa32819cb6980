/-
# Searches do not interfere

All searches of a container take and give back references in the same store, and their positions lie
on the same elements.  Still, as long as no container is altered, what a search answers depends on
its own commands only, and on those of the searches that it was copied from.

These commands are its lineage.  It is found by reading a transcript from its end, with the names
of the searches that matter from there on: a command is part of the lineage if it writes one of
them, and before a command that has written a search those matter from which it was computed.  Run
alone, the lineage answers what it answered in the full run.
-/

import FormalLanguages.Proofs.Workspace.History
import FormalLanguages.Proofs.Workspace.Writing

namespace FormalLanguages

namespace Command

variable {P E : Type}

/-- Whether a command writes a search under one of the given names, or a pattern. -/
def concerns (names : List String) (command : Command P E) : Bool :=
  command.isPattern || command.search?.any names.contains

/-- No command writes both a pattern and a search. -/
theorem search?_of_isPattern {command : Command P E} (hpattern : command.isPattern = true) :
    command.search? = none := by
  cases command with
  | keepPattern pattern keep => rfl
  | dropPattern name => rfl
  | _ => cases hpattern

/-- The names of the searches on which those under the given names depend before a command with its
answer.  A command that ended in a fault has written nothing. -/
def needs (names : List String) (command : Command P E) : Except Fault Reply → List String
  | .ok _ => command.sources ++ names.filter fun name => command.search? ≠ some name
  | .error _ => command.sources ++ names

end Command

/-- The part of a transcript on which the search under a name depends in the end, and the names of
the searches on which it depends in the beginning. -/
def lineage {P E : Type} (name : String) : List (Command P E × Except Fault Reply) →
    List (Command P E × Except Fault Reply) × List String
  | [] => ([], [name])
  | (command, answer) :: rest =>
      let (kept, names) := lineage name rest
      if command.concerns names then ((command, answer) :: kept, command.needs names answer)
      else (kept, names)

namespace Workspace

variable {C α P E : Type} [Container C α P E] {workspace other after : Workspace C P}
  {command : Command P E} {reply : Reply} {names known : List String}

/-- Commands, each with what it answers in a run of all of them. -/
def transcript (workspace : Workspace C P) (commands : List (Command P E)) :
    List (Command P E × Except Fault Reply) :=
  commands.zip (workspace.run commands).1

theorem transcript_ok (hstep : workspace.step command = .ok (reply, after))
    (rest : List (Command P E)) :
    workspace.transcript (command :: rest) = (command, .ok reply) :: after.transcript rest := by
  simp only [transcript, Workspace.run, hstep, List.zip_cons_cons]

theorem transcript_error {fault : Fault} (hstep : workspace.step command = .error fault)
    (rest : List (Command P E)) :
    workspace.transcript (command :: rest) =
      (command, .error fault) :: workspace.transcript rest := by
  simp only [transcript, Workspace.run, hstep, List.zip_cons_cons]

variable [LawfulContainer C α P E]

namespace Shadows

theorem mono (hshadows : Shadows known workspace other) (hnames : ∀ name ∈ names, name ∈ known) :
    Shadows names workspace other :=
  { hshadows with searches_eq := fun name hname => hshadows.searches_eq name (hnames name hname) }

/-- Giving the same pattern a name in both. -/
theorem keepPattern (hshadows : Shadows names workspace other) (keep : String) (pattern : P) :
    Shadows names (workspace.keepPattern keep pattern) (other.keepPattern keep pattern) where
  sound := (hshadows.sound.withPatterns _ _).sound
  sound' := (hshadows.sound'.withPatterns _ _).sound
  containers_eq := hshadows.containers_eq
  patterns_eq name := by
    simp only [Workspace.keepPattern, share, Table.get?_insert]
    split
    · rfl
    · exact hshadows.patterns_eq name
  searches_eq := hshadows.searches_eq

theorem dropPattern (hshadows : Shadows names workspace other) (dropped : String) :
    Shadows names { workspace with patterns := workspace.patterns.erase dropped }
      { other with patterns := other.patterns.erase dropped } where
  sound := (hshadows.sound.withPatterns _ workspace.serial).sound
  sound' := (hshadows.sound'.withPatterns _ other.serial).sound
  containers_eq := hshadows.containers_eq
  patterns_eq name := by
    simp only [Table.get?_erase]
    split
    · rfl
    · exact hshadows.patterns_eq name
  searches_eq := hshadows.searches_eq

/-- A command on patterns answers the same in both. -/
theorem step_pattern (hshadows : Shadows names workspace other)
    (hpattern : command.isPattern = true) :
    Agree (fun result result' => result.1 = result'.1 ∧ Shadows names result.2 result'.2)
      (workspace.step command) (other.step command) := by
  cases command with
  | keepPattern pattern keep => exact .ok ⟨rfl, hshadows.keepPattern keep pattern⟩
  | dropPattern name =>
      have hfull := congrArg Option.isSome (hshadows.patterns_eq name)
      simp only [Option.map_eq_map, Option.isSome_map] at hfull
      exact .ok ⟨congrArg Reply.flag hfull, hshadows.dropPattern name⟩
  | _ => cases hpattern

variable [Uncounting C α P E]

/-- A command that concerns none of the names may be left out. -/
theorem skip (hshadows : Shadows names workspace other) (halters : ¬command.Alters)
    (hconcerns : command.concerns names = false)
    (hstep : workspace.step command = .ok (reply, after)) : Shadows names after other := by
  have hkeeps := hshadows.sound.step_keeps command
  rw [hstep] at hkeeps
  obtain ⟨hpattern, hany⟩ := Bool.or_eq_false_iff.mp hconcerns
  have hframed := step_framed hshadows.sound.containers halters hpattern hstep
  refine ⟨hkeeps.1, hshadows.sound', ?_, ?_, ?_⟩
  · exact hframed.counted.uncounted_eq.trans hshadows.containers_eq
  · rw [hframed.patterns_eq]
    exact hshadows.patterns_eq
  · intro name hname
    have htouches : ¬command.Touches name := by
      intro htouches
      rw [Command.touches_iff.mp htouches] at hany
      simp [hname] at hany
    rw [hkeeps.2.2 name htouches]
    exact hshadows.searches_eq name hname

/-- A command that writes a search answers the same in both, if they cannot be told apart by the
searches that decide about it.  Afterwards they cannot be told apart by the one it writes either. -/
theorem step_search (hshadows : Shadows known workspace other) (halters : ¬command.Alters)
    {written : String} (hwritten : command.search? = some written)
    (hsources : ∀ name ∈ command.sources, name ∈ known)
    (hnames : ∀ name ∈ names, name ≠ written → name ∈ known) :
    Agree (fun result result' => result.1 = result'.1 ∧ Shadows names result.2 result'.2)
      (workspace.step command) (other.step command) := by
  have hpattern : command.isPattern = false := by
    rw [Bool.eq_false_iff]
    intro hpattern
    cases hwritten.symm.trans (Command.search?_of_isPattern hpattern)
  have hwrite := ((Agree.symm (hshadows.sound.step_writes hwritten)).trans
    (hshadows.write_agree hsources)).trans (hshadows.sound'.step_writes hwritten)
  rcases hwrite.results with hresults | ⟨fault, hfirst, hsecond⟩
  · obtain ⟨⟨reply, after⟩, ⟨reply', next⟩, hstep, hstep', hanswers⟩ := hresults
    obtain ⟨_, ⟨_, ⟨hreply, hafter⟩, hsame, hsearch⟩, hreply', hnext⟩ := hanswers
    have hkeeps := hshadows.sound.step_keeps command
    have hkeeps' := hshadows.sound'.step_keeps command
    rw [hstep] at hkeeps
    rw [hstep'] at hkeeps'
    have hframed := step_framed hshadows.sound.containers halters hpattern hstep
    have hframed' := step_framed hshadows.sound'.containers halters hpattern hstep'
    rw [hstep, hstep']
    refine .ok ⟨hreply.trans (hsame.trans hreply'.symm), hkeeps.1, hkeeps'.1, ?_, ?_, ?_⟩
    · rw [hframed.counted.uncounted_eq, hframed'.counted.uncounted_eq]
      exact hshadows.containers_eq
    · rw [hframed.patterns_eq, hframed'.patterns_eq]
      exact hshadows.patterns_eq
    · intro name hname
      by_cases hwrites : name = written
      · rw [hwrites, hafter, hnext]
        exact hsearch
      · have htouches : ¬command.Touches name := by
          rw [Command.touches_iff, hwritten]
          exact fun heq => hwrites (Option.some.inj heq).symm
        rw [hkeeps.2.2 name htouches, hkeeps'.2.2 name htouches]
        exact hshadows.searches_eq name (hnames name hname hwrites)
  · rw [hfirst, hsecond]
    exact .error _

/-- A command that concerns some of the names answers the same in both. -/
theorem follow (hshadows : Shadows known workspace other) (halters : ¬command.Alters)
    (hconcerns : command.concerns names = true)
    (hsources : ∀ name ∈ command.sources, name ∈ known)
    (hnames : ∀ name ∈ names, command.search? ≠ some name → name ∈ known) :
    Agree (fun result result' => result.1 = result'.1 ∧ Shadows names result.2 result'.2)
      (workspace.step command) (other.step command) := by
  cases hpattern : command.isPattern with
  | true =>
      apply (hshadows.mono ?_).step_pattern hpattern
      intro name hname
      apply hnames name hname
      rw [Command.search?_of_isPattern hpattern]
      exact nofun
  | false =>
      cases hwritten : command.search? with
      | none => simp [Command.concerns, hpattern, hwritten] at hconcerns
      | some written =>
          apply hshadows.step_search halters hwritten hsources
          intro name hname hne
          apply hnames name hname
          rw [hwritten]
          exact fun heq => hne (Option.some.inj heq).symm

/-- The lineage of a search answers alone what it answers in the full run, and leaves the same
search, up to the serial of its pattern. -/
theorem run (name : String) {commands : List (Command P E)}
    (halters : ∀ command ∈ commands, ¬command.Alters)
    (hshadows : Shadows (lineage name (workspace.transcript commands)).2 workspace other) :
    (other.run ((lineage name (workspace.transcript commands)).1.map Prod.fst)).1 =
        (lineage name (workspace.transcript commands)).1.map Prod.snd ∧
      Shadows [name] (workspace.run commands).2
        (other.run ((lineage name (workspace.transcript commands)).1.map Prod.fst)).2 := by
  induction commands generalizing workspace other with
  | nil => exact ⟨rfl, hshadows⟩
  | cons command rest ih =>
      have hcommand := halters command List.mem_cons_self
      have hrest (other : Command P E) (hother : other ∈ rest) : ¬other.Alters :=
        halters other (List.mem_cons_of_mem _ hother)
      cases hstep : workspace.step command with
      | error fault =>
          rw [transcript_error hstep, lineage] at hshadows ⊢
          simp only [Workspace.run, hstep]
          cases hconcerns : command.concerns (lineage name (workspace.transcript rest)).2 with
          | false =>
              simp only [hconcerns, Bool.false_eq_true, ↓reduceIte] at hshadows ⊢
              exact ih hrest hshadows
          | true =>
              simp only [hconcerns, ↓reduceIte] at hshadows ⊢
              have hfollow := hshadows.follow hcommand hconcerns
                (fun source hsource => List.mem_append_left _ hsource)
                (fun kept hkept _ => List.mem_append_right _ hkept)
              rcases hfollow.results with ⟨_, _, hok, -⟩ | ⟨_, hfault, hother⟩
              · cases hstep.symm.trans hok
              · cases hstep.symm.trans hfault
                obtain ⟨hreplies, hlast⟩ :=
                  ih hrest (hshadows.mono fun _ hkept => List.mem_append_right _ hkept)
                simp only [List.map_cons, Workspace.run, hother]
                exact ⟨congrArg _ hreplies, hlast⟩
      | ok result =>
          obtain ⟨reply, after⟩ := result
          rw [transcript_ok hstep, lineage] at hshadows ⊢
          simp only [Workspace.run, hstep]
          cases hconcerns : command.concerns (lineage name (after.transcript rest)).2 with
          | false =>
              simp only [hconcerns, Bool.false_eq_true, ↓reduceIte] at hshadows ⊢
              exact ih hrest (hshadows.skip hcommand hconcerns hstep)
          | true =>
              simp only [hconcerns, ↓reduceIte] at hshadows ⊢
              have hfollow := hshadows.follow hcommand hconcerns
                (fun source hsource => List.mem_append_left _ hsource)
                (fun kept hkept hne => List.mem_append_right _
                  (List.mem_filter.mpr ⟨hkept, decide_eq_true hne⟩))
              rcases hfollow.results with ⟨_, result', hok, hother, hreply, hafter⟩ | ⟨_, hfault, -⟩
              · obtain ⟨reply', next⟩ := result'
                cases hstep.symm.trans hok
                obtain rfl : reply = reply' := hreply
                obtain ⟨hreplies, hlast⟩ := ih hrest hafter
                simp only [List.map_cons, Workspace.run, hother]
                exact ⟨congrArg _ hreplies, hlast⟩
              · cases hstep.symm.trans hfault

end Shadows

section Independent

/-- Commands that do not interfere: they change no more of the containers than reference counts,
and whichever search is looked at in the end, its lineage alone answers the same and leaves the same
search, up to the serial of its pattern. -/
structure Independent (workspace : Workspace C P) (commands : List (Command P E)) : Prop where
  containers_eq : (workspace.run commands).2.containers.map Container.uncounted =
    workspace.containers.map Container.uncounted
  answers_eq : ∀ name, let kept := (lineage name (workspace.transcript commands)).1
    (workspace.run (kept.map Prod.fst)).1 = kept.map Prod.snd
  search_eq : ∀ name, let kept := (lineage name (workspace.transcript commands)).1
    Search.anonymous <$> (workspace.run (kept.map Prod.fst)).2.searches.get? name =
      Search.anonymous <$> (workspace.run commands).2.searches.get? name

theorem Sound.shadows (hsound : workspace.Sound) (names : List String) :
    Shadows names workspace workspace :=
  ⟨hsound, hsound, rfl, fun _ => rfl, fun _ _ => rfl⟩

variable [Uncounting C α P E]

/-- A run that alters no container changes nothing of them but reference counts. -/
theorem Sound.uncounted_run (hsound : workspace.Sound) {commands : List (Command P E)}
    (halters : ∀ command ∈ commands, ¬command.Alters) :
    (workspace.run commands).2.containers.map Container.uncounted =
      workspace.containers.map Container.uncounted := by
  apply (hsound.run_preserves (fun after => after.containers.map Container.uncounted =
    workspace.containers.map Container.uncounted) ?_ rfl).2
  intro before after command reply hbefore hcommand hstep hsame
  exact (step_counted hbefore.containers (halters command hcommand) hstep).uncounted_eq.trans hsame

theorem Sound.independent (hsound : workspace.Sound) {commands : List (Command P E)}
    (halters : ∀ command ∈ commands, ¬command.Alters) : workspace.Independent commands where
  containers_eq := hsound.uncounted_run halters
  answers_eq name := (Shadows.run name halters (hsound.shadows _)).1
  search_eq name := by
    have hlast := (Shadows.run name halters (hsound.shadows _)).2
    exact (hlast.searches_eq name List.mem_cons_self).symm

end Independent

/-- Whatever was done to grammars, or to automata, searches do not interfere from there on as long
as no container is altered. -/
theorem searches_independent (A : Type) [DecidableEq A] (count : Nat) :
    (∀ earlier commands : List (Command Grammar.Pattern (Grammar.Edit A)),
      (∀ command ∈ commands, ¬command.Alters) →
      (reached (Grammar.empty : Grammar A) count earlier).Independent commands) ∧
    ∀ earlier commands : List (Command Automaton.Pattern (Automaton.Edit A)),
      (∀ command ∈ commands, ¬command.Alters) →
      (reached (Automaton.initial : Automaton A) count earlier).Independent commands := by
  constructor
  · intro earlier commands halters
    exact (sound_grammars count earlier).independent halters
  · intro earlier commands halters
    exact (sound_automata count earlier).independent halters

/-- A run that fills a grammar, and removes the production at the position of a search. -/
def settling : List (Command Grammar.Pattern (Grammar.Edit Nat)) :=
  [.edit 0 (.addVariables 2) none,
    .edit 0 (.addProduction (.ofVariable 1) .empty) none,
    .edit 0 (.addProduction (.ofVariable 1) (.ofSymbol (.ofVariable 2))) (some "removed"),
    .edit 0 (.addProduction (.ofVariable 2) .empty) none,
    .search (some (0, .elements)) "first", .matchNext "first", .remove 0 "removed"]

/-- Steps of three searches, one of which is a copy, between those of handles and matches. -/
def interleaving : List (Command Grammar.Pattern (Grammar.Edit Nat)) :=
  [.search (some (0, .matching { lhs := .is (.ofVariable 1) })) "second",
    .matchNext "second", .matchNext "first", .takeFromSearch "second" "handle",
    .copySearch "first" "copy", .next "copy" (some "match"), .copyHandle "removed" "handle",
    .rewind "first", .drain "second" none, .next "copy" none, .dropMatch "match",
    .dropSearch "first", .matchNext "copy"]

/-- A run that connects the states of an automaton and keeps two searches of its transitions. -/
def joining : List (Command Automaton.Pattern (Automaton.Edit Nat)) :=
  [.edit 0 (.addStates 1) none,
    .edit 0 (.addTransition ⟨⟨.epsilon, .epsilon, .epsilon, 0⟩, 1⟩) none,
    .edit 0 (.addTransition ⟨⟨.epsilon, .epsilon, .epsilon, 1⟩, 0⟩) none,
    .search (some (0, .elements)) "first", .search none "second"]

/-- The search that was copied from another one depends on the steps of that one up to there, and
the search that was assigned depends on nothing but its own. -/
theorem searches_independent_interleaved :
    ((∀ command ∈ interleaving, ¬command.Alters) ∧
      (reached (Grammar.empty : Grammar Nat) 1 settling).Independent interleaving ∧
      (lineage "copy" ((reached (Grammar.empty : Grammar Nat) 1 settling).transcript
        interleaving)).1.map Prod.fst =
        [.matchNext "first", .copySearch "first" "copy", .next "copy" (some "match"),
          .next "copy" none, .matchNext "copy"]) ∧
    let commands : List (Command Automaton.Pattern (Automaton.Edit Nat)) :=
      [.matchNext "first", .assignSearch "second" "first", .matchNext "second", .rewind "first",
        .drain "second" none, .matchNext "first"]
    (∀ command ∈ commands, ¬command.Alters) ∧
      (reached (Automaton.initial : Automaton Nat) 1 joining).Independent commands := by
  have halters : ∀ command ∈ interleaving, ¬command.Alters := by
    simp [interleaving, Command.Alters]
  constructor
  · exact ⟨halters, (searches_independent Nat 1).1 settling interleaving halters, by decide +kernel⟩
  · intro commands
    have halters' : ∀ command ∈ commands, ¬command.Alters := by
      simp [commands, Command.Alters]
    exact ⟨halters', (searches_independent Nat 1).2 joining commands halters'⟩

end Workspace

end FormalLanguages
