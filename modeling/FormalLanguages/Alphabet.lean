/-
# An alphabet numbers its values once and for all

Interning a value gives it the next free terminal, unless it already has one.  Values are never
taken out again, so a terminal keeps its value while the alphabet grows.
-/

import FormalLanguages.Symbol

namespace FormalLanguages

/-- The values of an alphabet in the order in which they were interned, each of them once. -/
structure Alphabet (A : Type) where
  values : List A := []
  nodup : values.Nodup := by simp

namespace Alphabet

variable {A : Type}

/-- The alphabet without values. -/
def empty : Alphabet A := {}

/-- How many values have been interned. -/
def size (alphabet : Alphabet A) : Nat := alphabet.values.length

/-- The value of a terminal, if the symbol is a terminal of this alphabet. -/
def value? (alphabet : Alphabet A) (x : Symbol) : Option A :=
  match x.terminalOffset with
  | some offset => alphabet.values[offset - 1]?
  | none => none

/-- The terminal of a value, with the alphabet in which it has one. -/
def intern [DecidableEq A] (alphabet : Alphabet A) (value : A) : Symbol × Alphabet A :=
  if h : value ∈ alphabet.values then
    (.ofTerminal (alphabet.values.idxOf value + 1), alphabet)
  else
    (.ofTerminal (alphabet.size + 1),
      { values := alphabet.values ++ [value]
        nodup := by
          rw [List.nodup_append]
          exact ⟨alphabet.nodup, by simp, by rintro a ha b hb rfl; simp_all⟩ })

/-- Intern values in order, and return their terminals. -/
def internAll [DecidableEq A] (alphabet : Alphabet A) : List A → List Symbol × Alphabet A
  | [] => ([], alphabet)
  | value :: rest =>
      let (x, alphabet) := alphabet.intern value
      let (symbols, alphabet) := internAll alphabet rest
      (x :: symbols, alphabet)

end Alphabet

end FormalLanguages
