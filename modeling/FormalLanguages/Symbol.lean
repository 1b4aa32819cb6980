/-
# The sign of a symbol is its kind

Variables and terminals share one line of 32-bit integers: zero is the empty symbol, the
positive numbers are variables, and the negative numbers are terminals.  Variable `n` is stored
as `n`, and the terminal at place `n` of an alphabet, counted from one, as `-n`.  Symbols carry
no trace of the container that handed them out, so containers have to check every symbol they
are given.
-/

namespace FormalLanguages

/-- A variable, a terminal or the empty symbol, told apart by the sign of its number. -/
structure Symbol where
  value : Int32
  deriving DecidableEq, Repr

namespace Symbol

/-- The empty symbol. -/
def epsilon : Symbol := ⟨0⟩

/-- The variable with number `id`; variables are counted from one. -/
def ofVariable (id : Nat) : Symbol := ⟨Int32.ofNat id⟩

/-- The terminal at place `offset` of its alphabet; places are counted from one. -/
def ofTerminal (offset : Nat) : Symbol := ⟨-Int32.ofNat offset⟩

/-- The empty symbol is the number zero. -/
def isEpsilon (x : Symbol) : Bool := x.value == 0

/-- Variables are the positive numbers. -/
def isVariable (x : Symbol) : Bool := decide (0 < x.value)

/-- Terminals are the negative numbers. -/
def isTerminal (x : Symbol) : Bool := decide (x.value < 0)

/-- The number of a variable. -/
def variableId (x : Symbol) : Option Nat :=
  if x.isVariable then some x.value.toInt.natAbs else none

/-- The place of a terminal in its alphabet.  The least number has no positive counterpart
among 32-bit integers, which is why a place is a natural number. -/
def terminalOffset (x : Symbol) : Option Nat :=
  if x.isTerminal then some x.value.toInt.natAbs else none

/-- How many symbols this symbol adds to a string. -/
def length (x : Symbol) : Nat := if x.isEpsilon then 0 else 1

/-- The number of a symbol as an unsigned word, which is what a hash is computed from. -/
def word (x : Symbol) : UInt32 := x.value.toUInt32

/-- Symbols are ordered by their numbers: terminals, the empty symbol, variables. -/
instance : Ord Symbol where
  compare x y := compare x.value.toInt y.value.toInt

/-- The text that names a symbol inside the description of a larger value. -/
def describe (x : Symbol) : String := "Symbol(" ++ toString x.value.toInt ++ ")"

/-- The letter that is written for the empty symbol and for the empty string. -/
def epsilonText : String := "ε"

end Symbol

end FormalLanguages
