/-
# A match is what a search has found

Elements live in containers, and there may be several of them, so an element is named by a handle:
the number of its container and the key at which it is stored there.  A match says what a search
came upon: an element with its group and the values bound by a pattern, or a group, or a terminal.
-/

import FormalLanguages.Pattern

namespace FormalLanguages

/-- An element of one of several containers. -/
structure Handle where
  container : Nat
  key : Key
  deriving DecidableEq, Repr

/-- The text that shows a handle. -/
def Handle.describe (handle : Handle) : String := "Handle(" ++ handle.key.describe ++ ")"

/-- What a search has found; nothing before its first match and after its last. -/
structure Match where
  element : Option Handle := none
  group : Option Nat := none
  symbol : Option Symbol := none
  slots : Slots := []
  deriving DecidableEq

namespace Match

/-- The match of a search that has found nothing. -/
def empty : Match := {}

/-- The value bound to a slot. -/
def get? (found : Match) (slot : Nat) : Option Binding := found.slots[slot]?.join

/-- The text that shows a value that may be missing. -/
def describeOption {α : Type} (describeValue : α → String) : Option α → String
  | none => "None"
  | some value => "Some(" ++ describeValue value ++ ")"

/-- The text that shows a match, given how groups are shown. -/
def describe (describeGroup : Nat → String) (found : Match) : String :=
  "Match \x7b element: " ++ describeOption Handle.describe found.element ++
    ", group: " ++ describeOption describeGroup found.group ++
    ", symbol: " ++ describeOption Symbol.describe found.symbol ++
    ", slots: [" ++ ", ".intercalate (found.slots.map (describeOption Binding.describe)) ++
    "] \x7d"

end Match

end FormalLanguages
