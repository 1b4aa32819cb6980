/-
# Phrases put strings together

A phrase describes how a symbol string is assembled: symbols and lists of symbols at the leaves,
concatenation and repetition above them, and references to phrases that were evaluated before.
A bare symbol stays a symbol until it is joined to something; everything that is joined is a
string.
-/

import FormalLanguages.SymbolString

namespace FormalLanguages

/-- What a phrase stands for. -/
inductive Meaning
  | symbol (x : Symbol)
  | string (s : SymbolString)
  deriving DecidableEq

namespace Meaning

/-- Join two meanings.  Two symbols are collected into a string; a symbol beside a string is
first made a string of its own. -/
def join : Meaning → Meaning → SymbolString
  | symbol x, symbol y => .ofSymbols [x, y]
  | symbol x, string t => .ofSymbol x ++ t
  | string s, symbol y => s ++ .ofSymbol y
  | string s, string t => s ++ t

/-- Whether two meanings are the same, where a symbol is the string of itself. -/
def agrees : Meaning → Meaning → Bool
  | symbol x, symbol y => x == y
  | symbol x, string t => t.denotes x
  | string s, symbol y => s.denotes y
  | string s, string t => s == t

/-- The words that a hash of a meaning is computed from. -/
def words : Meaning → List UInt32
  | symbol x => [x.word]
  | string s => s.words

end Meaning

/-- A description of how to assemble a symbol or a string. -/
inductive Phrase
  /-- A symbol as it is. -/
  | symbol (x : Symbol)
  /-- The string without symbols. -/
  | empty
  /-- The string of one symbol. -/
  | unit (x : Symbol)
  /-- The string of a list of symbols. -/
  | collected (symbols : List Symbol)
  /-- What an earlier phrase stands for, counted from zero. -/
  | earlier (position : Nat)
  /-- Two phrases joined. -/
  | joined (first second : Phrase)
  /-- A phrase appended to the empty string a number of times. -/
  | repeated (body : Phrase) (times : Nat)

namespace Phrase

/-- Append a meaning to a string a number of times, from the left. -/
def appendTimes (body : Meaning) : Nat → SymbolString → SymbolString
  | 0, start => start
  | times + 1, start => appendTimes body times (Meaning.join (.string start) body)

/-- What a phrase stands for, given what the earlier ones do.  There is no meaning only if the
phrase refers to one that was not evaluated. -/
def eval (before : Array Meaning) : Phrase → Option Meaning
  | symbol x => some (.symbol x)
  | empty => some (.string .empty)
  | unit x => some (.string (.ofSymbol x))
  | collected symbols => some (.string (.ofSymbols symbols))
  | earlier position => before[position]?
  | joined first second => do
      let first ← first.eval before
      let second ← second.eval before
      return .string (first.join second)
  | repeated body times => do
      let body ← body.eval before
      return .string (appendTimes body times .empty)

/-- Evaluate phrases in order, each with the meanings of those before it. -/
def evalAll (phrases : List Phrase) : Option (Array Meaning) :=
  phrases.foldlM (fun before phrase => return before.push (← phrase.eval before)) #[]

end Phrase

end FormalLanguages
