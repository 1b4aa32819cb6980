/-
# Grammars and automata show nothing of their tombstones

What a grammar or an automaton says of itself is said of its live elements and of the tables that
reclaiming leaves alone.  Tombstones do show in one place: a search for variables starts at the
variable of the first production that is stored, live or not.  But no variable in front of a later
start has a live production, so no such variable would have been found.

Removing, counting, adding groups and asking for changes that are refused have the same outcome in
two grammars, or automata, that differ in their tombstones.
-/

import FormalLanguages.Proofs.Automaton
import FormalLanguages.Proofs.Grammar
import FormalLanguages.Proofs.Search.Alike

namespace FormalLanguages

namespace Grammar

variable {A : Type} {grammar other : Grammar A}

/-- The changes that may add a production. -/
def Edit.Adds : Edit A → Prop
  | .addProduction _ _ => True
  | _ => False

/-- No stored production is in front of the group where a search for variables starts, and that
group exists unless nothing is stored. -/
theorem Sound.firstGroup_le (hsound : grammar.Sound) {first : Nat}
    (hfirst : grammar.firstGroup = .ok first) :
    (first = 0 ∨ first < grammar.graph.groups.size) ∧
      ∀ key entry, grammar.graph.stored? key = some entry → first ≤ entry.group := by
  obtain ⟨cursor, keys, hcursor, hahead⟩ := Graph.ahead_firstElement hsound.graph
  cases cursor with
  | none =>
      simp only [firstGroup, hcursor, ok_bind, pure_eq_ok] at hfirst
      cases hfirst
      exact ⟨.inl rfl, fun _ _ _ => Nat.zero_le _⟩
  | some start =>
      obtain ⟨front, hfront⟩ := hahead.positioned start rfl
      have hplace : grammar.graph.place? start = some front.place :=
        Graph.place?_of_stored hfront
      simp only [firstGroup, hcursor, ok_bind, pure_eq_ok, Graph.element_of_stored hfront] at hfirst
      cases hfirst
      refine ⟨.inr (hsound.graph.grouped start _ hplace), fun key entry hentry => ?_⟩
      obtain ⟨_, place, hstart, hstartPlace, hreach⟩ := hahead.onward
        (fun _ _ hconfined => by cases hconfined) (Graph.place?_of_stored hentry) trivial
      cases hstart
      cases hplace.symm.trans hstartPlace
      rcases hreach with heq | hbehind
      · exact Nat.le_of_eq (congrArg Place.group heq).symm
      · rcases Place.lt_iff.mp hbehind.1 with hlt | ⟨heq, -⟩
        · exact Nat.le_of_lt hlt
        · exact Nat.le_of_eq heq

theorem checkVariable_congr (hsize : other.graph.groups.size = grammar.graph.groups.size)
    (x : Symbol) : other.checkVariable x = grammar.checkVariable x := by
  have hcount : other.variableCount = grammar.variableCount := hsize
  unfold checkVariable
  rw [hcount]

/-- A group in front of the start of a search for variables has no live production. -/
theorem passed_firstGroup (hsound : grammar.Sound) (hother : other.Sound)
    (halike : grammar.graph.Alike other.graph) {later group : Nat}
    (hlater : other.firstGroup = .ok later) (hlt : group < later) :
    group < grammar.graph.groups.size ∧ grammar.graph.hasLive group = .ok false := by
  obtain ⟨hsize, hle⟩ := hother.firstGroup_le hlater
  have hsize : later < other.graph.groups.size := hsize.resolve_left (by omega)
  rw [halike.size_eq] at hsize
  refine ⟨Nat.lt_trans hlt hsize, ?_⟩
  rw [halike.hasLive_eq hsound.graph hother.graph]
  obtain ⟨shown, hshown, hiff⟩ := Graph.hasLive_spec hother.graph group
  cases shown with
  | false => exact hshown
  | true =>
      obtain ⟨key, entry, hentry, -, rfl⟩ := hiff.mp rfl
      exact absurd (hle key entry hentry) (Nat.not_le.mpr hlt)

variable [DecidableEq A]

/-- What does not add a production has the same outcome whatever tombstones are stored. -/
theorem edit_alike (hsound : grammar.Sound) (hother : other.Sound)
    (halike : grammar.graph.Alike other.graph) (halphabet : grammar.alphabet = other.alphabet)
    {change : Edit A} (hadds : ¬change.Adds) :
    ∃ answer after next, grammar.edit change = .ok (answer, after) ∧
      other.edit change = .ok (answer, next) ∧ after.graph.Alike next.graph ∧
      after.alphabet = next.alphabet ∧ grammar.graph.Wanes after.graph ∧
      other.graph.Wanes next.graph ∧ ∀ key, answer ≠ .element key := by
  cases change with
  | addProduction lhs rhs => exact absurd trivial hadds
  | addVariables count =>
      obtain ⟨graph, hadd, -, hwidened⟩ := hsound.addVariables_spec count
      obtain ⟨graph', hadd', -, hwidened'⟩ := hother.addVariables_spec count
      rw [halike.size_eq] at hadd'
      exact ⟨.symbols ((List.range' grammar.graph.groups.size count).map variableOf),
        { grammar with graph }, { other with graph := graph' },
        by simp only [edit, hadd, ok_bind, pure_eq_ok],
        by simp only [edit, hadd', ok_bind, pure_eq_ok], halike.widened hwidened hwidened',
        halphabet, hwidened.wanes, hwidened'.wanes, by simp⟩
  | intern values =>
      refine ⟨.symbols (grammar.terminals values).1, (grammar.terminals values).2,
        (other.terminals values).2, rfl, ?_, halike, ?_, .refl _, .refl _, by simp⟩
      · simp only [edit, terminals, halphabet, pure_eq_ok]
      · simp only [terminals, halphabet]
  | removeVariable x =>
      have hcheck := checkVariable_congr halike.size_eq x
      rcases hsound.removeVariable_spec x with
        ⟨refusal, hrefused, hremove⟩ | ⟨group, removed, graph, haccepted, hremove, hgraph, hsize,
          hremoved⟩
      · have hremove' : other.removeVariable x = .ok (.error refusal) := by
          simp only [removeVariable, hcheck, hrefused, pure_eq_ok]
        exact ⟨.refused refusal, grammar, other,
          by simp only [edit, hremove, Answer.orRefused, ok_bind, pure_eq_ok],
          by simp only [edit, hremove', Answer.orRefused, ok_bind, pure_eq_ok], halike, halphabet,
          .refl _, .refl _, by simp⟩
      · rcases hother.removeVariable_spec x with
          ⟨refusal, hrefused, -⟩ | ⟨group', removed', graph', haccepted', hremove', hgraph', hsize',
            hremoved'⟩
        · rw [hcheck, haccepted] at hrefused
          cases hrefused
        · rw [hcheck, haccepted] at haccepted'
          cases haccepted'
          have halikeAfter := halike.removed hremoved hremoved'
          -- Both had as many live productions before, and have as many afterwards.
          have hcount : removed' = removed := by
            rw [← halike.live_eq hsound.graph hother.graph, ← hsize,
              halikeAfter.live_eq hgraph hgraph'] at hsize'
            exact Nat.add_left_cancel hsize'
          subst hcount
          exact ⟨.count removed', { grammar with graph }, { other with graph := graph' },
            by simp only [edit, hremove, Answer.orRefused, ok_bind, pure_eq_ok],
            by simp only [edit, hremove', Answer.orRefused, ok_bind, pure_eq_ok], halikeAfter,
            halphabet, hremoved.wanes, hremoved'.wanes, by simp⟩

/-- Beside its productions a grammar keeps its alphabet. -/
instance concealing : Concealing (Grammar A) SymbolString Pattern (Edit A) (Alphabet A) where
  tables := alphabet
  Adds := Edit.Adds
  tables_setGraph _ _ := rfl
  tables_reclaim hreclaim := by
    obtain ⟨⟨count, graph, index⟩, -, hafter⟩ := bind_eq_ok.mp hreclaim
    cases hafter
    rfl
  terminalCount_eq htables := congrArg Alphabet.size htables
  shows_eq hsound hother halike group :=
    halike.hasLive_eq (Sound.graph hsound) (Sound.graph hother) group
  hidden hsound hafter hwanes _ _ hshows :=
    hwanes.hasLive_eq (Sound.graph hsound) (Sound.graph hafter) hshows
  passed hsound hother halike _ _ _ _ hlater _ hlt :=
    passed_firstGroup hsound hother halike hlater hlt
  edit_alike := edit_alike

end Grammar

namespace Automaton

variable {A : Type} {automaton other : Automaton A}

/-- The changes that may add a transition. -/
def Edit.Adds : Edit A → Prop
  | .addTransition _ => True
  | _ => False

theorem checkState_congr (hsize : other.graph.groups.size = automaton.graph.groups.size)
    (state : Nat) : other.checkState state = automaton.checkState state := by
  have hcount : other.stateCount = automaton.stateCount := hsize
  unfold checkState
  rw [hcount]

variable [DecidableEq A]

/-- What an automaton keeps beside its transitions: its alphabet, the states that accept, and the
start. -/
def tables (automaton : Automaton A) : Alphabet A × Array Bool × Nat :=
  (automaton.alphabet, automaton.accepting, automaton.start)

/-- What does not add a transition has the same outcome whatever tombstones are stored. -/
theorem edit_alike (hsound : automaton.Sound) (hother : other.Sound)
    (halike : automaton.graph.Alike other.graph) (htables : automaton.tables = other.tables)
    {change : Edit A} (hadds : ¬change.Adds) :
    ∃ answer after next, automaton.edit change = .ok (answer, after) ∧
      other.edit change = .ok (answer, next) ∧ after.graph.Alike next.graph ∧
      after.tables = next.tables ∧ automaton.graph.Wanes after.graph ∧
      other.graph.Wanes next.graph ∧ ∀ key, answer ≠ .element key := by
  simp only [tables, Prod.mk.injEq] at htables
  obtain ⟨halphabet, haccepting, hstart⟩ := htables
  cases change with
  | addTransition transition => exact absurd trivial hadds
  | addStates count =>
      obtain ⟨graph, hadd, -, hwidened⟩ := hsound.addStates_spec count
      obtain ⟨graph', hadd', -, hwidened'⟩ := hother.addStates_spec count
      rw [halike.size_eq] at hadd'
      exact ⟨.states (List.range' automaton.graph.groups.size count),
        { automaton with graph, accepting := automaton.accepting ++ Array.replicate count false },
        { other with
          graph := graph'
          accepting := other.accepting ++ Array.replicate count false },
        by simp only [edit, hadd, ok_bind, pure_eq_ok],
        by simp only [edit, hadd', ok_bind, pure_eq_ok], halike.widened hwidened hwidened',
        by simp only [tables, halphabet, haccepting, hstart], hwidened.wanes, hwidened'.wanes,
        by simp⟩
  | intern values =>
      refine ⟨.symbols (automaton.symbols values).1, (automaton.symbols values).2,
        (other.symbols values).2, rfl, ?_, halike, ?_, .refl _, .refl _, by simp⟩
      · simp only [edit, symbols, halphabet, pure_eq_ok]
      · simp only [symbols, tables, halphabet, haccepting, hstart]
  | setStart state =>
      have hcheck := checkState_congr halike.size_eq state
      cases hstate : automaton.checkState state with
      | error refusal =>
          exact ⟨.refused refusal, automaton, other,
            by simp [edit, setStart, hstate, Answer.orRefused, Except.map],
            by simp [edit, setStart, hcheck, hstate, Answer.orRefused, Except.map], halike,
            by simp only [tables, halphabet, haccepting, hstart], .refl _, .refl _, by simp⟩
      | ok _ =>
          exact ⟨.done, { automaton with start := state }, { other with start := state },
            by simp [edit, setStart, hstate, Answer.orRefused, Except.map],
            by simp [edit, setStart, hcheck, hstate, Answer.orRefused, Except.map], halike,
            by simp only [tables, halphabet, haccepting], .refl _, .refl _, by simp⟩
  | setAccepting state accept =>
      have hcheck := checkState_congr halike.size_eq state
      cases hstate : automaton.checkState state with
      | error refusal =>
          exact ⟨.refused refusal, automaton, other,
            by simp [edit, setAccepting, hstate, Answer.orRefused, Except.map],
            by simp [edit, setAccepting, hcheck, hstate, Answer.orRefused, Except.map], halike,
            by simp only [tables, halphabet, haccepting, hstart], .refl _, .refl _, by simp⟩
      | ok _ =>
          exact ⟨.done,
            { automaton with accepting := automaton.accepting.setIfInBounds state accept },
            { other with accepting := other.accepting.setIfInBounds state accept },
            by simp [edit, setAccepting, hstate, Answer.orRefused, Except.map],
            by simp [edit, setAccepting, hcheck, hstate, Answer.orRefused, Except.map], halike,
            by simp only [tables, halphabet, haccepting, hstart], .refl _, .refl _, by simp⟩

instance concealing : Concealing (Automaton A) Move Pattern (Edit A)
    (Alphabet A × Array Bool × Nat) where
  tables := tables
  Adds := Edit.Adds
  tables_setGraph _ _ := rfl
  tables_reclaim hreclaim := by
    obtain ⟨⟨count, graph, index⟩, -, hafter⟩ := bind_eq_ok.mp hreclaim
    cases hafter
    rfl
  terminalCount_eq htables := congrArg (fun tables => tables.1.size) htables
  shows_eq {automaton other} _ _ halike group := by
    have hcount : other.stateCount = automaton.stateCount := halike.size_eq
    change Except.ok (decide (group < automaton.stateCount)) =
      Except.ok (decide (group < other.stateCount))
    rw [hcount]
  hidden {automaton _} _ _ _ group hgroup hshows := by
    -- Every state is shown, so there is none that is not.
    have hshown : decide (group < automaton.stateCount) = false := Except.ok.inj hshows
    exact absurd hgroup (of_decide_eq_false hshown)
  passed _ _ _ _ _ _ hfirst hlater hle hlt := by
    cases hfirst
    cases hlater
    exact absurd hlt (Nat.not_lt_zero _)
  edit_alike := edit_alike

end Automaton

end FormalLanguages
