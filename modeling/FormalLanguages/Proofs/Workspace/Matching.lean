/-
# What a match of one element decides

An element that a handle refers to is matched against a pattern with slots of the caller, which may
hold something already.  The constraints of a pattern are about the slots that its terms name, so
with as many slots as the pattern is said to need, what the match decides is what unification
decides.

One more than the greatest slot is zero as a word, so the slots that a pattern is said to need never
include that one.  Where a match comes to a term that names it, it ends in a fault.
-/

import FormalLanguages.Proofs.Unification
import FormalLanguages.Proofs.Workspace.Filter

namespace FormalLanguages.Workspace

/-- What a match comes to, given whether the pattern fits, what it binds and whether it names the
greatest slot. -/
inductive Resolves (fits : Prop) (binds : Nat → Binding → Prop) (overruns : Prop) (slots : Slots) :
    Except Fault Bool × Slots → Prop
  /-- A verdict is the one of unification. -/
  | unified {verdict : Bool} {last : Slots} (hunifies : Unifies fits binds slots verdict last) :
      Resolves fits binds overruns slots (.ok verdict, last)
  /-- Otherwise the greatest slot is asked for, which is not among the slots.  No slot that was
  filled has changed, and whatever else a slot holds is bound to it. -/
  | overrun {last : Slots} (hoverruns : overruns) (hkept : slots.Extends last)
      (hbound : ∀ slot value, last.Holds slot value → slots.Holds slot value ∨ binds slot value) :
      Resolves fits binds overruns slots
        (.error (.outOfBounds slots.length greatestSlot.toNat), last)

theorem Resolves.congr {fits fits' overruns : Prop} {binds binds' : Nat → Binding → Prop}
    {slots : Slots} {outcome : Except Fault Bool × Slots}
    (hresolves : Resolves fits binds overruns slots outcome) (hfits : fits ↔ fits')
    (hbinds : ∀ slot value, binds slot value ↔ binds' slot value) :
    Resolves fits' binds' overruns slots outcome := by
  obtain rfl : fits = fits' := propext hfits
  obtain rfl : binds = binds' := funext fun slot => funext fun value => propext (hbinds slot value)
  exact hresolves

section Test

variable {C α P E : Type} [Container C α P E] [LawfulContainer C α P E] {workspace : Workspace C P}
  {handle : Handle} {element : Element α}

end Test

end FormalLanguages.Workspace
