/-
# Containers differ in what they chain, not in how it is searched

A grammar and an automaton both chain elements by group and number terminals.  What a search needs
to know beyond that is little: from which group a search for groups starts and which groups it
shows, and what a pattern of the container asks of an element.
-/

import FormalLanguages.Automaton.Pattern
import FormalLanguages.Grammar.Pattern

namespace FormalLanguages

/-- What a container answers to a change of it. -/
inductive Answer
  | done
  | symbols (symbols : List Symbol)
  | states (states : List Nat)
  | count (count : Nat)
  | element (key : Key)
  | refused (refusal : Refusal)
  deriving DecidableEq

/-- A type of containers, with the data of its elements, its patterns and its changes. -/
class Container (C : Type) (α P E : outParam Type) where
  /-- The chained elements. -/
  graph : C → Graph α
  /-- The container with other chained elements. -/
  setGraph : C → Graph α → C
  /-- The group from which a search for groups starts. -/
  firstGroup : C → Except Fault Nat
  /-- Whether a search for groups shows a group. -/
  shows : C → Nat → Except Fault Bool
  /-- The number of terminals. -/
  terminalCount : C → Nat
  /-- The group that a pattern is confined to. -/
  scope : P → Option Nat
  /-- The slots that the terms of a pattern fill. -/
  slots : P → List (Option UInt64)
  /-- What a pattern asks of an element. -/
  constraints : P → Element α → List Constraint
  /-- Carry out a change.  A change that is refused changes nothing. -/
  edit : C → E → Except Fault (Answer × C)
  /-- Free every removed element that nothing refers to, and count them. -/
  reclaim : C → Except Fault (Nat × C)

/-- How many slots are provided for matching a pattern. -/
def Container.slotCount (C : Type) {α P E : Type} [Container C α P E] (pattern : P) : Nat :=
  slotsNeeded (Container.slots C pattern)

/-- What a change answers that may be refused: the container is then the one before. -/
def Answer.orRefused {C β : Type} (answer : β → Answer) (container : C) :
    Except Refusal (β × C) → Answer × C
  | .ok (value, container) => (answer value, container)
  | .error refusal => (.refused refusal, container)

namespace Grammar

variable {A : Type} [DecidableEq A]

/-- The changes of a grammar other than removing one production. -/
inductive Edit (A : Type)
  | addVariables (count : Nat)
  | intern (values : List A)
  | addProduction (lhs : Symbol) (rhs : SymbolString)
  | removeVariable (x : Symbol)
  deriving DecidableEq

/-- Carry out a change. -/
def edit (grammar : Grammar A) : Edit A → Except Fault (Answer × Grammar A)
  | .addVariables count => do
      let (symbols, grammar) ← grammar.addVariables count
      return (.symbols symbols, grammar)
  | .intern values =>
      let (symbols, grammar) := grammar.terminals values
      return (.symbols symbols, grammar)
  | .addProduction lhs rhs =>
      return Answer.orRefused .element grammar (← grammar.addProduction lhs rhs)
  | .removeVariable x =>
      return Answer.orRefused .count grammar (← grammar.removeVariable x)

/-- A search for variables starts at the first variable that has any production and shows those
that have a live one. -/
instance : Container (Grammar A) SymbolString Pattern (Edit A) where
  graph := graph
  setGraph grammar graph := { grammar with graph }
  firstGroup := firstGroup
  shows grammar group := grammar.graph.hasLive group
  terminalCount := terminalCount
  scope := Pattern.scope
  slots := Pattern.slots
  constraints pattern element := pattern.constraints (productionOf element)
  edit := edit
  reclaim := reclaim

end Grammar

namespace Automaton

variable {A : Type} [DecidableEq A]

/-- The changes of an automaton other than removing one transition. -/
inductive Edit (A : Type)
  | addStates (count : Nat)
  | intern (values : List A)
  | setStart (state : Nat)
  | setAccepting (state : Nat) (accept : Bool)
  | addTransition (transition : Transition)
  deriving DecidableEq

/-- Carry out a change. -/
def edit (automaton : Automaton A) : Edit A → Except Fault (Answer × Automaton A)
  | .addStates count => do
      let (states, automaton) ← automaton.addStates count
      return (.states states, automaton)
  | .intern values =>
      let (symbols, automaton) := automaton.symbols values
      return (.symbols symbols, automaton)
  | .setStart state =>
      return Answer.orRefused (fun () => .done) automaton
        ((automaton.setStart state).map ((), ·))
  | .setAccepting state accept =>
      return Answer.orRefused (fun () => .done) automaton
        ((automaton.setAccepting state accept).map ((), ·))
  | .addTransition transition =>
      return Answer.orRefused .element automaton (← automaton.addTransition transition)

/-- A search for states shows every state. -/
instance : Container (Automaton A) Move Pattern (Edit A) where
  graph := graph
  setGraph automaton graph := { automaton with graph }
  firstGroup _ := return 0
  shows automaton group := return decide (group < automaton.stateCount)
  terminalCount := symbolCount
  scope := Pattern.scope
  slots := Pattern.slots
  constraints pattern element := pattern.constraints (transitionOf element)
  edit := edit
  reclaim := reclaim

end Automaton

end FormalLanguages
