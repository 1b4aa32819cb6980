/-
# A grammar keeps each live production once

A grammar owns variables, counted from one, and terminals interned from an alphabet.  A production
replaces one variable by a string, and the productions of a variable are chained in the order in
which they were added.  Variable `n` owns group `n - 1` of the graph.

Adding a production that is already there, live, gives the one that is there.  It is found through
an index that files every stored production under its group and the fingerprint of its right-hand
side.  Different strings may share a fingerprint and removed productions stay filed until they are
reclaimed, so a file is searched for a live production with the very same string.

A request with a symbol that the grammar does not own is refused before anything changes.
-/

import FormalLanguages.Alphabet
import FormalLanguages.Grammar.Production
import FormalLanguages.Graph
import FormalLanguages.Refusal
import FormalLanguages.Table

namespace FormalLanguages

/-- Productions by variable, the alphabet of the terminals, and the index of the productions by
group and fingerprint. -/
structure Grammar (A : Type) where
  graph : Graph SymbolString := .empty .production
  alphabet : Alphabet A := .empty
  index : Table (Nat × Fingerprint) (List Key) := .empty

namespace Grammar

variable {A : Type}

/-- The grammar without variables and terminals. -/
def empty : Grammar A := {}

/-- The variable that owns a group. -/
def variableOf (group : Nat) : Symbol := .ofVariable (group + 1)

/-- How many live productions there are. -/
def productionCount (grammar : Grammar A) : Nat := grammar.graph.size

/-- How many variables there are. -/
def variableCount (grammar : Grammar A) : Nat := grammar.graph.groups.size

/-- How many terminals there are. -/
def terminalCount (grammar : Grammar A) : Nat := grammar.alphabet.size

/-- Add a variable without productions. -/
def addVariable (grammar : Grammar A) : Except Fault (Symbol × Grammar A) := do
  let (group, graph) ← grammar.graph.addGroup
  return (variableOf group, { grammar with graph })

/-- Add variables, and return them in order. -/
def addVariables (grammar : Grammar A) : Nat → Except Fault (List Symbol × Grammar A)
  | 0 => return ([], grammar)
  | count + 1 => do
      let (x, grammar) ← grammar.addVariable
      let (rest, grammar) ← grammar.addVariables count
      return (x :: rest, grammar)

/-- The terminals of values, added to the alphabet where they are new. -/
def terminals [DecidableEq A] (grammar : Grammar A) (values : List A) :
    List Symbol × Grammar A :=
  let (symbols, alphabet) := grammar.alphabet.internAll values
  (symbols, { grammar with alphabet })

/-- The value of a terminal, if the symbol is a terminal of this grammar. -/
def terminalValue? (grammar : Grammar A) (x : Symbol) : Option A := grammar.alphabet.value? x

/-- The group of a variable of this grammar. -/
def checkVariable (grammar : Grammar A) (x : Symbol) : Except Refusal Nat :=
  match x.variableId with
  | none => .error (.notAVariable x)
  | some id =>
      if id ≤ grammar.variableCount then .ok (id - 1) else .error (.unknownVariable x)

/-- Whether a symbol may stand on a right-hand side of this grammar. -/
def checkSymbol (grammar : Grammar A) (x : Symbol) : Except Refusal Unit :=
  match x.terminalOffset with
  | some offset =>
      if offset ≤ grammar.terminalCount then .ok () else .error (.unknownTerminal x)
  | none => if x.isVariable then (grammar.checkVariable x).map fun _ => () else .ok ()

/-- The group a production would be added to, if its variable and then each symbol of its
right-hand side, in order, are of this grammar. -/
def checkProduction (grammar : Grammar A) (lhs : Symbol) (rhs : SymbolString) :
    Except Refusal Nat := do
  let group ← grammar.checkVariable lhs
  rhs.symbols.forM grammar.checkSymbol
  return group

/-- The live production of a group with a right-hand side. -/
def findLive (grammar : Grammar A) (group : Nat) (rhs : SymbolString) :
    Except Fault (Option Key) := do
  let keys := (grammar.index.get? (group, rhs.fingerprint)).getD []
  keys.findM? fun key => do
    let element ← grammar.graph.element key
    return !element.deleted && element.data == rhs

/-- Store a new production and file it. -/
def insert (grammar : Grammar A) (group : Nat) (rhs : SymbolString) :
    Except Fault (Key × Grammar A) := do
  let (key, graph) ← grammar.graph.append group rhs
  let place := (group, rhs.fingerprint)
  let keys := (grammar.index.get? place).getD []
  return (key, { grammar with graph, index := grammar.index.insert place (keys ++ [key]) })

/-- Add a production at the end of its variable's chain, unless the variable has it already. -/
def addProduction (grammar : Grammar A) (lhs : Symbol) (rhs : SymbolString) :
    Except Fault (Except Refusal (Key × Grammar A)) := do
  match grammar.checkProduction lhs rhs with
  | .error refusal => return .error refusal
  | .ok group =>
      match ← grammar.findLive group rhs with
      | some key => return .ok (key, grammar)
      | none => return .ok (← grammar.insert group rhs)

/-- Remove every production of a variable, and count those that were live. -/
def removeVariable (grammar : Grammar A) (x : Symbol) :
    Except Fault (Except Refusal (Nat × Grammar A)) := do
  match grammar.checkVariable x with
  | .error refusal => return .error refusal
  | .ok group =>
      let (count, graph) ← grammar.graph.removeGroup group
      return .ok (count, { grammar with graph })

/-- Take a freed production out of its file, and the file out of the index if it is empty then. -/
def unfile (index : Table (Nat × Fingerprint) (List Key)) (key : Key)
    (node : Node SymbolString) : Table (Nat × Fingerprint) (List Key) :=
  let place := (node.group, node.data.fingerprint)
  match index.get? place with
  | none => index
  | some keys =>
      let left := keys.filter (· ≠ key)
      if left.isEmpty then index.erase place else index.insert place left

/-- Free every removed production that nothing refers to, and count them. -/
def reclaim (grammar : Grammar A) : Except Fault (Nat × Grammar A) := do
  let (count, graph, index) ← grammar.graph.reclaimFiled unfile grammar.index
  return (count, { grammar with graph, index })

/-- The group from which a search for variables starts: that of the first element of all. -/
def firstGroup (grammar : Grammar A) : Except Fault Nat := do
  match ← grammar.graph.firstElement with
  | some key => return (← grammar.graph.element key).group
  | none => return 0

/-- The production that an element of the graph stands for. -/
def productionOf (element : Element SymbolString) : Production :=
  ⟨variableOf element.group, element.data⟩

end Grammar

end FormalLanguages
