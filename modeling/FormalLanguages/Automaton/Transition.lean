/-
# A transition is written with its states around its symbols

A transition leads from a source to a sink while it reads one symbol, pops one off the stack and
pushes one onto it; each of the three may be the empty symbol, which has a letter of its own
instead of a name.
-/

import FormalLanguages.Symbol

namespace FormalLanguages

/-- What a transition does after its source: read, pop, push and go to the sink. -/
structure Move where
  read : Symbol
  pop : Symbol
  push : Symbol
  sink : Nat
  deriving DecidableEq, Repr

/-- A step of a pushdown automaton. -/
structure Transition extends Move where
  source : Nat
  deriving DecidableEq, Repr

namespace Transition

/-- The text of one symbol of a transition. -/
def renderSymbol (name : Symbol → String) (x : Symbol) : String :=
  if x.isEpsilon then Symbol.epsilonText else name x

/-- The text of a transition, for a naming function. -/
def render (name : Symbol → String) (transition : Transition) : String :=
  toString transition.source ++ " -- " ++ renderSymbol name transition.read ++ ", " ++
    renderSymbol name transition.pop ++ " / " ++ renderSymbol name transition.push ++ " --> " ++
    toString transition.sink

/-- The symbols whose names appear in the text of a transition, in order. -/
def mentions (transition : Transition) : List Symbol :=
  [transition.read, transition.pop, transition.push].filter (fun x => !x.isEpsilon)

end Transition

end FormalLanguages
