/-
# Refusals name what a container does not know

Symbols and states are plain numbers, so a container can be handed numbers that mean nothing to
it.  It then declines the request, names the number, and stays as it was.
-/

import FormalLanguages.Symbol
import FormalLanguages.Index.Kind

namespace FormalLanguages

/-- The ways in which a container declines a request. -/
inductive Refusal
  /-- The symbol is a variable, but not one of this grammar. -/
  | unknownVariable (x : Symbol)
  /-- A variable is wanted, and the symbol is none. -/
  | notAVariable (x : Symbol)
  /-- The symbol is a terminal, but not one of this alphabet. -/
  | unknownTerminal (x : Symbol)
  /-- A terminal or the empty symbol is wanted, and the symbol is a variable. -/
  | notATerminal (x : Symbol)
  /-- The automaton has no such state. -/
  | unknownState (state : Nat)
  deriving DecidableEq, Repr

namespace Refusal

/-- The name of the kind of refusal. -/
def name : Refusal → String
  | unknownVariable _ => "UnknownVariable"
  | notAVariable _ => "NotAVariable"
  | unknownTerminal _ => "UnknownTerminal"
  | notATerminal _ => "NotATerminal"
  | unknownState _ => "UnknownState"

/-- The number that was declined. -/
def argument : Refusal → Int
  | unknownVariable x | notAVariable x | unknownTerminal x | notATerminal x => x.value.toInt
  | unknownState state => state

/-- The sentence that tells a user about a refusal. -/
def message : Refusal → String
  | unknownVariable x => "Unknown variable " ++ toString x.value.toInt
  | notAVariable x => "Symbol " ++ toString x.value.toInt ++ " is not a variable"
  | unknownTerminal x => "Unknown terminal " ++ toString x.value.toInt
  | notATerminal x => "Symbol " ++ toString x.value.toInt ++ " is neither a terminal nor epsilon"
  | unknownState state => "Unknown state " ++ toString state

/-- The text of what was declined. -/
private def describeArgument : Refusal → String
  | unknownVariable x | notAVariable x | unknownTerminal x | notATerminal x => x.describe
  | unknownState state => IndexKind.state.describe state

/-- The text that shows a refusal with its kind. -/
def describe (refusal : Refusal) : String :=
  "FltlError \x7b kind: " ++ refusal.name ++ "(" ++ refusal.describeArgument ++ ") \x7d"

end Refusal

end FormalLanguages
