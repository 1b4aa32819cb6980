/-
# Patterns of productions see a right-hand side whole or by position

A pattern of productions describes the variable by a term, and the right-hand side either by one
term for the whole string or by one term for each symbol.  A pattern by position matches strings
of just its own length.
-/

import FormalLanguages.Grammar
import FormalLanguages.Pattern

namespace FormalLanguages

namespace Grammar

/-- What a pattern asks of a right-hand side. -/
inductive RhsPattern
  /-- One term for the string. -/
  | whole (term : Term SymbolString)
  /-- One term for each symbol. -/
  | positional (terms : List (Term Symbol))
  deriving DecidableEq

/-- A query over productions. -/
structure Pattern where
  lhs : Term Symbol := .any
  rhs : RhsPattern := .whole .any
  deriving DecidableEq

namespace RhsPattern

/-- What has to hold of a right-hand side; of a pattern by position, the length comes first. -/
def constraints : RhsPattern → SymbolString → List Constraint
  | whole term, rhs => [term.constraint .symbols rhs]
  | positional terms, rhs =>
      .require (terms.length == rhs.length) ::
        terms.zipWith (Term.constraint .symbol) rhs.symbols

/-- The slots that the terms fill. -/
def slots : RhsPattern → List (Option UInt64)
  | whole term => [term.slot?]
  | positional terms => terms.map Term.slot?

/-- The text that shows a pattern of right-hand sides. -/
def describe : RhsPattern → String
  | whole term => "Whole(" ++ term.describe SymbolString.describe ++ ")"
  | positional terms =>
      "Positional([" ++ ", ".intercalate (terms.map (Term.describe Symbol.describe)) ++ "])"

end RhsPattern

namespace Pattern

/-- The group that a pattern is confined to, if it fixes the variable.  A terminal or the empty
symbol fixes no group, and so is looked for everywhere, and a variable that the grammar does not
own fixes a group without elements. -/
def scope (pattern : Pattern) : Option Nat :=
  match pattern.lhs with
  | .is x => x.variableId.map (· - 1)
  | _ => none

/-- The slots that the terms fill. -/
def slots (pattern : Pattern) : List (Option UInt64) :=
  pattern.lhs.slot? :: pattern.rhs.slots

/-- What has to hold of a production, in the order in which it is asked. -/
def constraints (pattern : Pattern) (production : Production) : List Constraint :=
  pattern.lhs.constraint .symbol production.lhs :: pattern.rhs.constraints production.rhs

/-- The text that shows a pattern. -/
def describe (pattern : Pattern) : String :=
  "ProductionPattern \x7b variable: " ++ pattern.lhs.describe Symbol.describe ++ ", rhs: " ++
    pattern.rhs.describe ++ " \x7d"

end Pattern

end Grammar

end FormalLanguages
