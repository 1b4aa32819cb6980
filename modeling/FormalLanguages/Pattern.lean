/-
# Matching is solving constraints from left to right

A pattern describes each field of an element by a term: anything, one value, or a slot into which
the value goes.  Applied to an element, a pattern becomes a list of constraints, and matching
solves them in order.  A slot that is already filled constrains the field to the same value, so a
slot used twice asks for equal fields.  Solving stops at the first constraint that fails, and
what had been bound until then stays bound.

Slots are numbered by words of 64 bits, and so is counted how many of them a pattern needs.  The
count wraps at the greatest word, so a slot of that number is not provided for.
-/

import FormalLanguages.Fault
import FormalLanguages.SymbolString

namespace FormalLanguages

/-- A value in a slot.  A symbol never equals a string, even the string of itself. -/
inductive Binding
  | symbol (x : Symbol)
  | symbols (s : SymbolString)
  | state (state : Nat)
  deriving DecidableEq

/-- The text that shows a bound value. -/
def Binding.describe : Binding → String
  | symbol x => "Symbol(" ++ x.describe ++ ")"
  | symbols s => "Symbols(" ++ s.describe ++ ")"
  | state number => "State(" ++ IndexKind.state.describe number ++ ")"

/-- The slots of a match in order, each with the value bound to it, if any. -/
abbrev Slots := List (Option Binding)

/-- What a pattern asks of one field. -/
inductive Term (α : Type)
  /-- Any value. -/
  | any
  /-- This value only. -/
  | is (value : α)
  /-- Any value, which goes into the slot. -/
  | bind (slot : UInt64)
  deriving DecidableEq, Repr

/-- One step of matching. -/
inductive Constraint
  /-- A condition that the element meets or not. -/
  | require (holds : Bool)
  /-- The slot has to hold the value. -/
  | bind (slot : Nat) (value : Binding)
  deriving DecidableEq

namespace Term

variable {α : Type}

/-- What a term asks, given the value of its field. -/
def constraint [DecidableEq α] (wrap : α → Binding) (term : Term α) (value : α) : Constraint :=
  match term with
  | any => .require true
  | is wanted => .require (wanted == value)
  | bind slot => .bind slot.toNat (wrap value)

/-- The slot a term fills. -/
def slot? : Term α → Option UInt64
  | bind slot => some slot
  | _ => none

/-- The text that shows a term. -/
def describe (describeValue : α → String) : Term α → String
  | any => "Any"
  | is value => "Is(" ++ describeValue value ++ ")"
  | bind slot => "Bind(Slot(" ++ toString slot.toNat ++ "))"

end Term

namespace Constraint

/-- Decide one constraint, binding a slot that is still free.  A slot that does not exist is a
fault. -/
def check (constraint : Constraint) (slots : Slots) : Except Fault Bool × Slots :=
  match constraint with
  | require holds => (.ok holds, slots)
  | bind slot value =>
      match slots[slot]? with
      | none => (.error (.outOfBounds slots.length slot), slots)
      | some none => (.ok true, slots.set slot (some value))
      | some (some bound) => (.ok (bound == value), slots)

/-- Solve constraints in order until one fails, and return the slots as they are then. -/
def solve : List Constraint → Slots → Except Fault Bool × Slots
  | [], slots => (.ok true, slots)
  | constraint :: rest, slots =>
      match constraint.check slots with
      | (.ok true, slots) => solve rest slots
      | stopped => stopped

end Constraint

/-- How many slots are needed for every slot that the given terms fill: one more than the greatest
of them, where one more than the greatest word is zero. -/
def slotsNeeded (slots : List (Option UInt64)) : Nat :=
  slots.foldl (fun needed slot =>
    match slot with
    | some slot => max needed (slot + 1).toNat
    | none => needed) 0

end FormalLanguages
