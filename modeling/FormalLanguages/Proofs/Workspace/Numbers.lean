/-
# Searches for groups and terminals keep up with growing tables

Groups and terminals are added to a container and never taken away, so a search for them runs after
a table that may grow at any moment.  If it shows everything that is in the table, what it has
produced when it comes to its end is the whole table as it is then, from its first number to its
last, whatever was done in between.

A grammar shows a variable only while it has a live production, and which variables have one may
change at any moment.
-/

import Mathlib.Data.List.Sort
import FormalLanguages.Proofs.Search.Numbers
import FormalLanguages.Proofs.Workspace.Following
import FormalLanguages.Proofs.Workspace.Interning

namespace FormalLanguages

/-- A row for each group of a table: zero, one and so on. -/
def groupRows (count : Nat) : List Match :=
  (List.range count).map fun group => { group := some group }

/-- A row for each terminal of an alphabet: minus one, minus two and so on. -/
def terminalRows (count : Nat) : List Match :=
  (List.range count).map fun (place : Nat) => { symbol := some ⟨Int32.ofInt (-(place + 1))⟩ }

theorem groupRows_eq {P : Type} {values : List Nat} {count : Nat}
    (hincreasing : values.Pairwise (· < ·)) (hmem : ∀ n, n ∈ values ↔ n < count) (offset : Nat) :
    values.map (Axis.groups offset : Axis P).numberRow = groupRows count := by
  have hvalues : values = List.range count := by
    apply hincreasing.eq_of_mem_iff List.pairwise_lt_range
    intro n
    rw [hmem, List.mem_range]
  rw [hvalues]
  rfl

theorem terminalRows_eq {P : Type} {values : List Nat} {count : Nat}
    (hincreasing : values.Pairwise (· < ·)) (hmem : ∀ n, n ∈ values ↔ 1 ≤ n ∧ n ≤ count)
    (offset : Nat) :
    values.map (Axis.terminals offset : Axis P).numberRow = terminalRows count := by
  have hvalues : values = List.range' 1 count := by
    apply hincreasing.eq_of_mem_iff List.pairwise_lt_range'
    intro n
    rw [hmem, List.mem_range'_1]
    omega
  have hrow (place : Nat) :
      Symbol.ofTerminal (1 + place) = ⟨Int32.ofInt (-(place + 1))⟩ := by
    rw [Symbol.ofTerminal, Int32.ofInt_neg, Nat.add_comm, ← Int32.ofInt_eq_ofNat]
    rfl
  rw [hvalues, List.range'_eq_map_range, List.map_map, terminalRows]
  apply List.map_congr_left
  intro place _
  simp only [Function.comp_apply, Axis.numberRow, hrow]

/-- Nothing that is done to a container takes a terminal away. -/
theorem Lexical.terminalCount_le {C A α P E : Type} [DecidableEq A] [Container C α P E]
    [LawfulContainer C α P E] [Lexical C A α P E] {container now : C}
    (hsound : LawfulContainer.Sound container) (hdevelops : Develops container now) :
    Container.terminalCount container ≤ Container.terminalCount now := by
  rw [terminalCount_eq, terminalCount_eq]
  cases hdevelops with
  | edited hedit =>
      rw [(edit_interns hsound hedit).1]
      exact (Alphabet.extends_internAll _ _).length_le
  | relabeled _ _ _ => rw [alphabet_setGraph]
  | reclaimed hreclaim => rw [alphabet_reclaim hreclaim]

/-- Containers that lose no group by a change, and no terminal by anything. -/
class Widening (C : Type) (α P E : outParam Type) [Container C α P E] [LawfulContainer C α P E] :
    Prop where
  size_le {container after : C} {change : E} {answer : Answer}
    (hsound : LawfulContainer.Sound container)
    (hedit : Container.edit container change = .ok (answer, after)) :
    (Container.graph container).groups.size ≤ (Container.graph after).groups.size
  terminalCount_le {container now : C} (hsound : LawfulContainer.Sound container)
    (hdevelops : Develops container now) :
    Container.terminalCount container ≤ Container.terminalCount now

instance Grammar.widening (A : Type) [DecidableEq A] :
    Widening (Grammar A) SymbolString Grammar.Pattern (Grammar.Edit A) where
  size_le hsound hedit := by
    cases Grammar.Sound.effect_of_edit hsound hedit with
    | widened _ hwidened => exact Nat.le.intro hwidened.size_eq.symm
    | created _ _ _ happended => exact Nat.le_of_eq happended.size_eq.symm
    | removed _ _ _ hremoved => exact Nat.le_of_eq hremoved.size_eq.symm
    | _ => exact Nat.le_refl _
  terminalCount_le := Lexical.terminalCount_le

instance Automaton.widening (A : Type) [DecidableEq A] :
    Widening (Automaton A) Move Automaton.Pattern (Automaton.Edit A) where
  size_le hsound hedit := by
    cases Automaton.Sound.effect_of_edit hsound hedit with
    | widened _ hwidened => exact Nat.le.intro hwidened.size_eq.symm
    | created _ _ _ happended => exact Nat.le_of_eq happended.size_eq.symm
    | _ => exact Nat.le_refl _
  terminalCount_le := Lexical.terminalCount_le

variable {C α P E : Type} [Container C α P E] [LawfulContainer C α P E] {container now : C}
  {number : Nat} {axis : Axis P} {admitted kept : Nat → Prop}

/-- What was in a table stays in it. -/
theorem Develops.has [Widening C α P E] (hdevelops : Develops container now)
    (hsound : LawfulContainer.Sound container) {n : Nat} (hhas : axis.Has container n) :
    axis.Has now n := by
  have hsize : (Container.graph container).groups.size ≤ (Container.graph now).groups.size := by
    cases hdevelops with
    | edited hedit => exact Widening.size_le hsound hedit
    | relabeled _ hrelabeled _ =>
        rw [LawfulContainer.graph_setGraph]
        exact Nat.le_of_eq hrelabeled.size_eq.symm
    | reclaimed hreclaim =>
        exact Nat.le_of_eq (swept_of_reclaim_eq_ok hsound hreclaim).2.size_eq.symm
  have hcount := Widening.terminalCount_le hsound hdevelops
  cases axis with
  | terminals offset => exact ⟨hhas.1, Nat.le_trans hhas.2 hcount⟩
  | _ => exact Nat.lt_of_lt_of_le hhas hsize

theorem Descends.has [Widening C α P E] (hdescends : Descends container now)
    (hsound : LawfulContainer.Sound container) {n : Nat} (hhas : axis.Has container n) :
    axis.Has now n :=
  (hdescends.preserves (fun after => axis.Has after n)
    (fun _ _ hbefore hdevelops hhas => hdevelops.has hbefore hhas) hsound hhas).2

variable [Widening C α P E] [Uncounting C α P E]

/-- A search along numbers is followed by the numbers it has produced.  What is admitted must not be
left out whenever the search goes on, and what is kept must be in the table. -/
def numberFollower (number : Nat) (haxis : axis.AlongNumbers) (admitted kept : Nat → Prop) :
    Follower C number Nat where
  allows container := (∀ n, admitted n → axis.Admits container n) ∧
    ∀ n, kept n → axis.Has container n
  tracks container := Search.Scans admitted kept container number axis
  row container found n := found = axis.numberRow n ∧ axis.Shows container n
  isBound hscans := by cases hscans <;> rfl
  descends hscans _ hsound _ hdescends _ _ := hscans.grows fun _ hhas => hdescends.has hsound hhas
  counted hrow hcounts := ⟨hrow.1, (Axis.shows_congr hcounts.uncounted_eq _).mpr hrow.2⟩
  matchNext hall hcontainer hallows hfit hheld hscans :=
    hscans.matchNext hall haxis hcontainer hallows.1 hallows.2 hfit hheld

namespace Workspace

variable {workspace : Workspace C P} {name : String} {start : C}

/-- The search kept under a name has come to its end. -/
def Exhausted (workspace : Workspace C P) (name : String) : Prop :=
  ∃ search, workspace.searches.get? name = some search ∧ search.progress = .exhausted

/-- A search along numbers that is at its beginning can be followed from there. -/
theorem Begins.follows_numbers
    (hreached : ∀ count (commands : List (Command P E)), (reached start count commands).Sound)
    (haxis : axis.AlongNumbers)
    (hbegins : Begins (E := E) start name number axis workspace)
    (hadmits : ∀ container, workspace.containers[number]? = some container →
      ∀ n, admitted n → axis.Admits container n) :
    workspace.Sound ∧ (numberFollower number haxis admitted kept).Follows workspace name [] := by
  have ⟨container, search, before, hsound, hcontainer, hsearch, htarget, hbegun⟩ :=
    hbegins.beginning hreached
  refine ⟨hsound, container, search, hcontainer, hsearch, ?_⟩
  have ⟨target, progress, current⟩ := before
  obtain rfl : target = some (number, axis) := htarget
  have ⟨offset, haxisAt⟩ : ∃ offset, axis.skipTo offset = axis := by
    cases axis with
    | elements cursor => exact haxis.elim
    | matching pattern cursor => exact haxis.elim
    | groups offset => exact ⟨offset, rfl⟩
    | terminals offset => exact ⟨offset, rfl⟩
  rcases hbegun with ⟨rfl, hprogress⟩ | hrewind
  · obtain rfl : progress = .unstarted := hprogress
    have hscans : Search.Scans admitted kept container number axis
        ⟨some (number, axis.skipTo offset), .unstarted, current⟩ [] := .unstarted
    rwa [haxisAt] at hscans
  · have ⟨first, hrewind', hpassed⟩ := Search.rewind_passed hsound.containers haxis hcontainer
      (hadmits container hcontainer) offset progress current
    rw [haxisAt] at hrewind'
    cases hrewind.symm.trans hrewind'
    exact .running hpassed fun n hn => by cases hn

/-- The rows of a search along numbers are those of the numbers it has produced. -/
theorem map_fst_of_rows {haxis : axis.AlongNumbers} {rows : List (Match × Workspace C P)}
    {values : List Nat}
    (hrows : List.Forall₂ (numberFollower number haxis admitted kept).RowFor rows values) :
    rows.map Prod.fst = values.map axis.numberRow :=
  map_eq_of_forall₂ (hrows.imp fun _ _ ⟨_, _, hrow, _⟩ => hrow)

/-- The command with which a search comes to its end leaves the tables alone.  If nothing that a
table may have is ever left out, the search has then produced the numbers that the table has. -/
theorem Sound.ends (hsound : workspace.Sound) {haxis : axis.AlongNumbers} {seen : List Nat}
    (hfollows : (numberFollower number haxis admitted fun _ => False).Follows workspace name seen)
    (hadmits : ∀ container : C, ∀ n, admitted n → axis.Admits container n)
    (hadmitted : ∀ container : C, ∀ n, axis.Has container n → admitted n)
    {command : Command P E} {reply : Reply} {after : Workspace C P}
    (hrenews : ¬command.Renews name) (hstep : workspace.step command = .ok (reply, after))
    (hopen : ¬workspace.Exhausted name) (hend : after.Exhausted name) :
    ∃ (container : C) (values : List Nat), after.containers[number]? = some container ∧
      rowsOf name after command reply = values.map axis.numberRow ∧
      (seen ++ values).Pairwise (· < ·) ∧ ∀ n, n ∈ seen ++ values ↔ axis.Has container n := by
  obtain ⟨container, search, hcontainer, hsearch, hscans⟩ := hfollows
  obtain ⟨last, hlast, hexhausted⟩ := hend
  have hkeeps := hsound.step_keeps command
  rw [hstep] at hkeeps
  -- The search has changed, so the command has written it.
  have htouches : command.Touches name := by
    by_contra hnot
    exact hopen ⟨last, (hkeeps.2.2 name hnot).symm.trans hlast, hexhausted⟩
  have hcounted := step_counted hsound.containers (Command.not_alters_of_touches htouches) hstep
  obtain ⟨now, hnow, hcounts⟩ := hcounted.counts number container hcontainer
  have hhas (n : Nat) : axis.Has now n ↔ axis.Has container n :=
    Axis.has_congr hcounts.uncounted_eq n
  have hprogress : search.progress ≠ .exhausted := fun heq => hopen ⟨search, hsearch, heq⟩
  have hthen : (numberFollower number haxis admitted (axis.Has now)).Follows workspace name seen :=
    ⟨container, search, hcontainer, hsearch, hscans.retarget hprogress _⟩
  obtain ⟨values, hvalues, hafter⟩ := hthen.step hsound
    (fun found hfound => by
      cases hcontainer.symm.trans hfound
      exact ⟨hadmits container, fun n => (hhas n).mp⟩) hrenews hstep
  obtain ⟨now', last', hnow', hlast', hdone⟩ := hafter
  cases hnow.symm.trans hnow'
  cases hlast.symm.trans hlast'
  refine ⟨now, values, hnow, ?_, hdone.increasing, fun n => ⟨hdone.within n, fun hn => ?_⟩⟩
  · have hrows := map_fst_of_rows hvalues
    rw [List.map_map] at hrows
    exact (List.map_id _).symm.trans hrows
  · exact hdone.complete hexhausted n (hadmitted now n hn) hn

/-- If nothing that a table may have is ever left out, a search that comes to its end has produced
the numbers that the table has then. -/
theorem Begins.sweeps (hbegins : Begins (E := E) start name number axis workspace)
    (hreached : ∀ count (commands : List (Command P E)), (reached start count commands).Sound)
    (haxis : axis.AlongNumbers)
    (hadmits : ∀ container now : C, ∀ n, axis.Has now n → axis.Admits container n)
    {earlier : List (Command P E)} {command : Command P E}
    (hrenews : ∀ other ∈ earlier ++ [command], ¬other.Renews name)
    (hopen : ¬(workspace.run earlier).2.Exhausted name)
    (hend : (workspace.run (earlier ++ [command])).2.Exhausted name) :
    ∃ (container : C) (values : List Nat),
      (workspace.run (earlier ++ [command])).2.containers[number]? = some container ∧
      (workspace.produced name (earlier ++ [command])).map Prod.fst =
        values.map axis.numberRow ∧
      values.Pairwise (· < ·) ∧ ∀ n, n ∈ values ↔ axis.Has container n := by
  let admitted (n : Nat) : Prop := ∃ now : C, axis.Has now n
  have hadmitted (container : C) (n : Nat) (hn : admitted n) : axis.Admits container n := by
    obtain ⟨now, hhas⟩ := hn
    exact hadmits container now n hhas
  obtain ⟨hsound, hfollows⟩ : workspace.Sound ∧
      (numberFollower number haxis admitted fun _ => False).Follows workspace name [] :=
    hbegins.follows_numbers hreached haxis fun container _ => hadmitted container
  obtain ⟨first, hfirst, hthen⟩ := hfollows.run hsound
    (fun _ _ _ container _ => ⟨hadmitted container, fun _ => False.elim⟩)
    fun other hother => hrenews other (List.mem_append_left _ hother)
  rw [List.nil_append] at hthen
  rw [run_append] at hend ⊢
  rw [produced_append]
  cases hstep : (workspace.run earlier).2.step command with
  | error fault =>
      simp only [Workspace.run, hstep] at hend
      exact absurd hend hopen
  | ok result =>
      obtain ⟨reply, after⟩ := result
      have hrenewsLast := hrenews command (List.mem_append_right _ List.mem_cons_self)
      simp only [Workspace.run, produced, hstep, List.append_nil] at hend ⊢
      obtain ⟨now, second, hnow, hsecond, hvalues⟩ := (hsound.run earlier).ends hthen hadmitted
        (fun now n hhas => ⟨now, hhas⟩) hrenewsLast hstep hopen hend
      refine ⟨now, first ++ second, hnow, ?_, hvalues⟩
      rw [List.map_append, List.map_append, map_fst_of_rows hfirst, ← hsecond, List.map_map]
      exact congrArg _ (List.map_id _)

/-- Whatever is done that does not renew it, what a search kept under a name has produced at the
moment when it comes to its end are the rows of the container as it is then. -/
def Sweeps (workspace : Workspace C P) (name : String) (number : Nat) (rows : C → List Match) :
    Prop :=
  ∀ (earlier : List (Command P E)) (command : Command P E),
    (∀ other ∈ earlier ++ [command], ¬other.Renews name) →
    ¬(workspace.run earlier).2.Exhausted name →
    (workspace.run (earlier ++ [command])).2.Exhausted name →
    ∃ container, (workspace.run (earlier ++ [command])).2.containers[number]? = some container ∧
      (workspace.produced name (earlier ++ [command])).map Prod.fst = rows container

/-- Searches for terminals and for states produce the alphabet and the states that there are at
their end, each in order and once, however these grow while the searches run. -/
theorem searches_sweep_growing_tables (A : Type) [DecidableEq A] (name : String)
    (number offset : Nat) :
    (∀ workspace : Workspace (Grammar A) Grammar.Pattern,
      Begins (Grammar.empty : Grammar A) name number (.terminals offset) workspace →
      workspace.Sweeps name number fun grammar => terminalRows grammar.terminalCount) ∧
    ∀ workspace : Workspace (Automaton A) Automaton.Pattern,
      (Begins (Automaton.initial : Automaton A) name number (.terminals offset) workspace →
        workspace.Sweeps name number fun automaton => terminalRows automaton.symbolCount) ∧
      (Begins (Automaton.initial : Automaton A) name number (.groups offset) workspace →
        workspace.Sweeps name number fun automaton => groupRows automaton.stateCount) := by
  have hterminals {C α P E : Type} [Container C α P E] (container now : C) (n : Nat)
      (hhas : (Axis.terminals offset : Axis P).Has now n) :
      (Axis.terminals offset : Axis P).Admits container n := by
    refine ⟨fun first hstart => ?_, fun _ => trivial⟩
    cases hstart
    exact hhas.1
  refine ⟨fun workspace hbegins earlier command hrenews hopen hend => ?_,
    fun workspace => ⟨fun hbegins earlier command hrenews hopen hend => ?_,
      fun hbegins earlier command hrenews hopen hend => ?_⟩⟩
  · have ⟨grammar, values, hgrammar, hrows, hincreasing, hmem⟩ :=
      hbegins.sweeps sound_grammars trivial hterminals hrenews hopen hend
    exact ⟨grammar, hgrammar, hrows.trans (terminalRows_eq hincreasing hmem offset)⟩
  · have ⟨automaton, values, hautomaton, hrows, hincreasing, hmem⟩ :=
      hbegins.sweeps sound_automata trivial hterminals hrenews hopen hend
    exact ⟨automaton, hautomaton, hrows.trans (terminalRows_eq hincreasing hmem offset)⟩
  · have hgroups (container now : Automaton A) (n : Nat)
        (_ : (Axis.groups offset : Axis Automaton.Pattern).Has now n) :
        (Axis.groups offset : Axis Automaton.Pattern).Admits container n := by
      refine ⟨fun first hstart => ?_, fun hhas => congrArg Except.ok (decide_eq_true hhas)⟩
      cases hstart
      exact Nat.zero_le n
    have ⟨automaton, values, hautomaton, hrows, hincreasing, hmem⟩ :=
      hbegins.sweeps sound_automata trivial hgroups hrenews hopen hend
    exact ⟨automaton, hautomaton, hrows.trans (groupRows_eq hincreasing hmem offset)⟩

/-- A run that keeps a search of the terminals of a grammar. -/
def spelling : List (Command Grammar.Pattern (Grammar.Edit Nat)) :=
  [.edit 0 (.intern [10, 20]) none, .search (some (0, .terminals)) "search"]

/-- A run that keeps a search of the symbols or the states of an automaton. -/
def branching (query : Query Automaton.Pattern) :
    List (Command Automaton.Pattern (Automaton.Edit Nat)) :=
  [.edit 0 (.addStates 1) none, .edit 0 (.intern [10, 20]) none,
    .search (some (0, query)) "search"]

/-- Going on with a search to its last row, with a change of its container in between. -/
def chasing {P E : Type} (change : E) : List (Command P E) :=
  [.matchNext "search", .edit 0 change none, .matchNext "search", .matchNext "search"]

/-- Searches that have not been started and one that has just been rewound produce what is added
while they run. -/
theorem searches_sweep_growing_tables_runs :
    ((reached (Grammar.empty : Grammar Nat) 1 spelling).produced "search"
      (chasing (.intern [20, 30]) ++ [.matchNext "search"])).map Prod.fst = terminalRows 3 ∧
    ((reached (Automaton.initial : Automaton Nat) 1 (branching .terminals)).produced "search"
      (chasing (.intern [20, 30]) ++ [.matchNext "search"])).map Prod.fst = terminalRows 3 ∧
    ∃ after, (reached (Automaton.initial : Automaton Nat) 1 (branching .groups)).step
        (.rewind "search") = .ok (.done, after) ∧
      (after.produced "search" (chasing (.addStates 1) ++ [.matchNext "search"])).map Prod.fst =
        groupRows 3 := by
  have hrenews {P E : Type} (change : E) (other : Command P E)
      (hother : other ∈ chasing change ++ [.matchNext "search"]) : ¬other.Renews "search" := by
    simp only [chasing, List.mem_append, List.mem_cons, List.not_mem_nil, or_false] at hother
    rcases hother with (rfl | rfl | rfl | rfl) | rfl <;> exact id
  have hterminals : (reached (Grammar.empty : Grammar Nat) 1 spelling).searches.get? "search" =
      some (.along 0 (.terminals 0)) := rfl
  have hsymbols : (reached (Automaton.initial : Automaton Nat) 1
      (branching .terminals)).searches.get? "search" = some (.along 0 (.terminals 0)) := rfl
  have hstates : (reached (Automaton.initial : Automaton Nat) 1
      (branching .groups)).searches.get? "search" = some (.along 0 (.groups 0)) := rfl
  have ⟨after, hstep⟩ : ∃ after, (reached (Automaton.initial : Automaton Nat) 1
      (branching .groups)).step (.rewind "search") = .ok (.done, after) := ⟨_, rfl⟩
  refine ⟨?_, ?_, after, hstep, ?_⟩
  · have ⟨grammar, hnow, hrows⟩ := (searches_sweep_growing_tables Nat "search" 0 0).1 _
      (.unstarted hterminals rfl rfl) (chasing (.intern [20, 30])) (.matchNext "search")
      (hrenews _) (fun ⟨_, hsearch, hexhausted⟩ => by cases hsearch; cases hexhausted)
      ⟨_, rfl, rfl⟩
    cases hnow
    exact hrows
  · have ⟨automaton, hnow, hrows⟩ := ((searches_sweep_growing_tables Nat "search" 0 0).2 _).1
      (.unstarted hsymbols rfl rfl) (chasing (.intern [20, 30])) (.matchNext "search")
      (hrenews _) (fun ⟨_, hsearch, hexhausted⟩ => by cases hsearch; cases hexhausted)
      ⟨_, rfl, rfl⟩
    cases hnow
    exact hrows
  · cases hstep
    have ⟨automaton, hnow, hrows⟩ := ((searches_sweep_growing_tables Nat "search" 0 0).2 _).2
      (.rewound hstates rfl rfl) (chasing (.addStates 1)) (.matchNext "search")
      (hrenews _) (fun ⟨_, hsearch, hexhausted⟩ => by cases hsearch; cases hexhausted)
      ⟨_, rfl, rfl⟩
    cases hnow
    exact hrows

end Workspace

end FormalLanguages
