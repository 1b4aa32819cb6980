/-
# Patterns of transitions see five fields

A pattern of transitions describes the source, the symbols that are read, popped and pushed, and
the sink, each by a term, and asks them in this order.
-/

import FormalLanguages.Automaton
import FormalLanguages.Pattern

namespace FormalLanguages

namespace Automaton

/-- A query over transitions. -/
structure Pattern where
  source : Term Nat := .any
  read : Term Symbol := .any
  pop : Term Symbol := .any
  push : Term Symbol := .any
  sink : Term Nat := .any
  deriving DecidableEq

namespace Pattern

/-- The group that a pattern is confined to, if it fixes the source. -/
def scope (pattern : Pattern) : Option Nat :=
  match pattern.source with
  | .is state => some state
  | _ => none

/-- The slots that the terms fill. -/
def slots (pattern : Pattern) : List (Option UInt64) :=
  [pattern.source.slot?, pattern.read.slot?, pattern.pop.slot?, pattern.push.slot?,
    pattern.sink.slot?]

/-- What has to hold of a transition, in the order in which it is asked. -/
def constraints (pattern : Pattern) (transition : Transition) : List Constraint :=
  [pattern.source.constraint .state transition.source,
    pattern.read.constraint .symbol transition.read,
    pattern.pop.constraint .symbol transition.pop,
    pattern.push.constraint .symbol transition.push,
    pattern.sink.constraint .state transition.sink]

/-- The text that shows a pattern. -/
def describe (pattern : Pattern) : String :=
  "TransitionPattern \x7b source: " ++ pattern.source.describe IndexKind.state.describe ++
    ", read: " ++ pattern.read.describe Symbol.describe ++
    ", pop: " ++ pattern.pop.describe Symbol.describe ++
    ", push: " ++ pattern.push.describe Symbol.describe ++
    ", sink: " ++ pattern.sink.describe IndexKind.state.describe ++ " \x7d"

end Pattern

end Automaton

end FormalLanguages
