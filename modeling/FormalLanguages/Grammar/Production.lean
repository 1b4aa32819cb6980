/-
# A production is written as its variable, an arrow and its symbols

Productions are shown to a user through a naming function for symbols.  Every name stands behind
one space, and an empty right-hand side is written as a letter of its own, so the names can be
read back as long as they hold no space and differ from that letter.
-/

import FormalLanguages.SymbolString

namespace FormalLanguages

/-- A rule that replaces a variable by a string. -/
structure Production where
  lhs : Symbol
  rhs : SymbolString
  deriving DecidableEq

namespace Production

/-- The text of a production, for a naming function. -/
def render (name : Symbol → String) (production : Production) : String :=
  name production.lhs ++ " ->" ++
    (if production.rhs.isEmpty then " " ++ Symbol.epsilonText else "") ++
    String.join (production.rhs.symbols.map fun x => " " ++ name x)

/-- The symbols whose names appear in the text of a production, in order. -/
def mentions (production : Production) : List Symbol :=
  production.lhs :: production.rhs.symbols

end Production

end FormalLanguages
