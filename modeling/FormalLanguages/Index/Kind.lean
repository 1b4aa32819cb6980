/-
# Three families of numbers never mix

Productions and transitions are numbered in the order of their creation and states in the order
of their addition.  The three families are counted separately, and the name of the family is
what tells their numbers apart in a text.
-/

namespace FormalLanguages

/-- What an index counts. -/
inductive IndexKind
  | production
  | transition
  | state
  deriving DecidableEq, Repr

/-- The short name of a family of indices. -/
def IndexKind.name : IndexKind → String
  | production => "PIdx"
  | transition => "XIdx"
  | state => "StIdx"

/-- The text that shows a number as an index of its family. -/
def IndexKind.describe (kind : IndexKind) (value : Nat) : String :=
  kind.name ++ "(" ++ toString value ++ ")"

end FormalLanguages
