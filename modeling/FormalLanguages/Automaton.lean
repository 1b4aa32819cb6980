/-
# An automaton keeps each live transition once

A pushdown automaton owns states, counted from zero, one of them its start, some of them
accepting, and symbols interned from an alphabet.  A new automaton has one state.  The transitions
that leave a state are chained in the order in which they were added; state `n` owns group `n` of
the graph.

Adding a transition that is already there, live, gives the one that is there.  It is found through
an index that keeps, for each source and move, the transition added last.  Earlier ones with the
same source and move can only be tombstones, for otherwise no later one would have been added.

A request with a state or a symbol that the automaton does not own is refused before anything
changes.

To a walk states are numbers: behind one comes the one with the next number.  The links of the graph
say the same, so walks may follow them.
-/

import FormalLanguages.Alphabet
import FormalLanguages.Automaton.Transition
import FormalLanguages.Graph
import FormalLanguages.Refusal
import FormalLanguages.Table

namespace FormalLanguages

/-- Transitions by source, the accepting states, the start, the alphabet, and the index of the
transitions added last by source and move. -/
structure Automaton (A : Type) where
  graph : Graph Move := { Graph.empty .transition with groups := #[{}], lastGroup := some 0 }
  accepting : Array Bool := #[false]
  start : Nat := 0
  alphabet : Alphabet A := .empty
  index : Table (Nat × Move) Key := .empty

namespace Automaton

variable {A : Type}

/-- The automaton with one state, which is its start and does not accept. -/
def initial : Automaton A := {}

/-- How many live transitions there are. -/
def transitionCount (automaton : Automaton A) : Nat := automaton.graph.size

/-- How many states there are. -/
def stateCount (automaton : Automaton A) : Nat := automaton.graph.groups.size

/-- How many symbols there are. -/
def symbolCount (automaton : Automaton A) : Nat := automaton.alphabet.size

/-- Add a state without transitions that does not accept. -/
def addState (automaton : Automaton A) : Except Fault (Nat × Automaton A) := do
  let (state, graph) ← automaton.graph.addGroup
  return (state, { automaton with graph, accepting := automaton.accepting.push false })

/-- Add states, and return them in order. -/
def addStates (automaton : Automaton A) : Nat → Except Fault (List Nat × Automaton A)
  | 0 => return ([], automaton)
  | count + 1 => do
      let (state, automaton) ← automaton.addState
      let (rest, automaton) ← automaton.addStates count
      return (state :: rest, automaton)

/-- The symbols of values, added to the alphabet where they are new. -/
def symbols [DecidableEq A] (automaton : Automaton A) (values : List A) :
    List Symbol × Automaton A :=
  let (symbols, alphabet) := automaton.alphabet.internAll values
  (symbols, { automaton with alphabet })

/-- The value of a symbol, if it is a symbol of this automaton. -/
def symbolValue? (automaton : Automaton A) (x : Symbol) : Option A := automaton.alphabet.value? x

/-- Whether a state is one of this automaton. -/
def checkState (automaton : Automaton A) (state : Nat) : Except Refusal Unit :=
  if state < automaton.stateCount then .ok () else .error (.unknownState state)

/-- Whether a symbol may stand on a transition of this automaton. -/
def checkSymbol (automaton : Automaton A) (x : Symbol) : Except Refusal Unit :=
  match x.terminalOffset with
  | some offset =>
      if offset ≤ automaton.symbolCount then .ok () else .error (.unknownTerminal x)
  | none => if x.isVariable then .error (.notATerminal x) else .ok ()

/-- Whether the source, the sink and then the symbols of a transition, in the order in which they
are read, popped and pushed, are of this automaton. -/
def checkTransition (automaton : Automaton A) (transition : Transition) :
    Except Refusal Unit := do
  automaton.checkState transition.source
  automaton.checkState transition.sink
  automaton.checkSymbol transition.read
  automaton.checkSymbol transition.pop
  automaton.checkSymbol transition.push

/-- Make a state the start. -/
def setStart (automaton : Automaton A) (state : Nat) : Except Refusal (Automaton A) := do
  automaton.checkState state
  return { automaton with start := state }

/-- Make a state accept or not. -/
def setAccepting (automaton : Automaton A) (state : Nat) (accept : Bool) :
    Except Refusal (Automaton A) := do
  automaton.checkState state
  return { automaton with accepting := automaton.accepting.setIfInBounds state accept }

/-- Whether a state accepts; a state that the automaton does not have never does. -/
def isAccepting (automaton : Automaton A) (state : Nat) : Bool :=
  automaton.accepting[state]?.getD false

/-- The live transition with a source and a move. -/
def findLive (automaton : Automaton A) (transition : Transition) :
    Except Fault (Option Key) := do
  match automaton.index.get? (transition.source, transition.toMove) with
  | none => return none
  | some key => return if (← automaton.graph.element key).deleted then none else some key

/-- Store a new transition and make it the one that is found. -/
def insert (automaton : Automaton A) (transition : Transition) :
    Except Fault (Key × Automaton A) := do
  let (key, graph) ← automaton.graph.append transition.source transition.toMove
  let place := (transition.source, transition.toMove)
  return (key, { automaton with graph, index := automaton.index.insert place key })

/-- Add a transition at the end of its source's chain, unless the source has it already. -/
def addTransition (automaton : Automaton A) (transition : Transition) :
    Except Fault (Except Refusal (Key × Automaton A)) := do
  match automaton.checkTransition transition with
  | .error refusal => return .error refusal
  | .ok () =>
      match ← automaton.findLive transition with
      | some key => return .ok (key, automaton)
      | none => return .ok (← automaton.insert transition)

/-- Take a freed transition out of the index, unless a later one has taken its place there. -/
def unfile (index : Table (Nat × Move) Key) (key : Key) (node : Node Move) :
    Table (Nat × Move) Key :=
  let place := (node.group, node.data)
  if index.get? place = some key then index.erase place else index

/-- Free every removed transition that nothing refers to, and count them. -/
def reclaim (automaton : Automaton A) : Except Fault (Nat × Automaton A) := do
  let (count, graph, index) ← automaton.graph.reclaimFiled unfile automaton.index
  return (count, { automaton with graph, index })

section Counting

variable (automaton : Automaton A)

/-- The state with the next number, if there is one. -/
def nextState (state : Nat) : Option Nat :=
  if state + 1 < automaton.stateCount then some (state + 1) else none

/-- The first transition of the first state that has any. -/
def firstTransition : Option Key :=
  automaton.graph.groups.findSome? Group.first

/-- The first transition of the first state with a greater number that has any. -/
def transitionBehind (state : Nat) : Option Key :=
  if state + 1 < automaton.stateCount then
    (automaton.graph.head? (state + 1)).or (transitionBehind (state + 1))
  else none
termination_by automaton.stateCount - state

/-- The transition that follows a given one, where states are counted instead of linked. -/
def nextTransition (key : Key) (confined : Bool) : Except Fault (Option Key) := do
  let node ← automaton.graph.store.get key
  match node.next with
  | some next => return some next
  | none => return if confined then none else automaton.transitionBehind node.group

end Counting

/-- The transition that an element of the graph stands for. -/
def transitionOf (element : Element Move) : Transition :=
  { element.data with source := element.group }

end Automaton

end FormalLanguages
