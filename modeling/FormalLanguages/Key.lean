/-
# A key names one stay in one slot

A store reuses its slots.  A key therefore holds the place of a slot together with the slot's
generation, the number of times it had been emptied when the key was made; a key whose
generation has passed can never be taken for the key of whatever fills the slot now.
-/

namespace FormalLanguages

/-- The address of a stored value: a slot and one generation of it. -/
structure Key where
  index : Nat
  generation : UInt32
  deriving DecidableEq, Repr

/-- The text that shows a key. -/
def Key.describe (key : Key) : String :=
  "Key \x7b idx: " ++ toString key.index ++ ", generation: " ++
    toString key.generation.toNat ++ " \x7d"

end FormalLanguages
