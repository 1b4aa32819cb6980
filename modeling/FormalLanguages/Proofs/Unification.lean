/-
# Matching is unification

Matching goes through the terms of a pattern from left to right, fills slots on the way and stops at
the first term that fails.  What it decides can be said without an order.  A pattern fits an element
if every field has the value that its term asks for, and it binds a slot to the value of every field
that is described by the slot.  Slots that extend those at the beginning and hold all that is bound
are a unifier, and matching succeeds exactly if the pattern fits and there is one.

Two bindings of one slot are in conflict unless they are equal, so a slot is never overwritten, and
each constraint that is solved leaves the least slots that solve it.  This is the invariant that
goes from one constraint to the next.
-/

import Mathlib.Data.List.Basic
import FormalLanguages.Automaton.Pattern
import FormalLanguages.Grammar.Pattern
import FormalLanguages.Proofs.Pattern

namespace FormalLanguages

namespace Slots

variable {slots middle after : Slots} {binds : Nat → Binding → Prop}

/-- A slot is filled with a value. -/
def Holds (slots : Slots) (slot : Nat) (value : Binding) : Prop := slots[slot]? = some (some value)

/-- As many slots, which hold at least what they held. -/
structure Extends (slots after : Slots) : Prop where
  length_eq : after.length = slots.length
  holds : ∀ slot value, slots.Holds slot value → after.Holds slot value

/-- Slots that hold everything that is bound. -/
def Meets (slots : Slots) (binds : Nat → Binding → Prop) : Prop :=
  ∀ slot value, binds slot value → slots.Holds slot value

theorem Extends.refl (slots : Slots) : slots.Extends slots := ⟨rfl, fun _ _ hholds => hholds⟩

theorem Extends.trans (hfirst : slots.Extends middle) (hsecond : middle.Extends after) :
    slots.Extends after where
  length_eq := hsecond.length_eq.trans hfirst.length_eq
  holds slot value hholds := hsecond.holds slot value (hfirst.holds slot value hholds)

theorem Meets.extend (hmeets : slots.Meets binds) (hextends : slots.Extends after) :
    after.Meets binds := fun slot value hbound =>
  hextends.holds slot value (hmeets slot value hbound)

end Slots

/-- What matching comes to, given whether the pattern fits and what it binds. -/
structure Unifies (fits : Prop) (binds : Nat → Binding → Prop) (slots : Slots) (verdict : Bool)
    (last : Slots) : Prop where
  /-- Matching succeeds exactly if the pattern fits and what it binds can be unified with what the
  slots held. -/
  decides : verdict = true ↔ fits ∧ ∃ after, slots.Extends after ∧ after.Meets binds
  /-- After a success the slots hold what they held and what is bound, and nothing else. -/
  holds_iff : verdict = true → ∀ slot value,
    last.Holds slot value ↔ slots.Holds slot value ∨ binds slot value
  /-- They are the least slots of this kind. -/
  least : verdict = true → last.Meets binds ∧
    ∀ after, slots.Extends after → after.Meets binds → last.Extends after
  /-- After a failure as well, no slot that was filled has changed. -/
  kept : slots.Extends last
  /-- Whatever else a slot holds is bound to it. -/
  bound : ∀ slot value, last.Holds slot value → slots.Holds slot value ∨ binds slot value

namespace Unifies

variable {fits others : Prop} {binds more : Nat → Binding → Prop} {slots middle last : Slots}
  {verdict : Bool}

/-- Slots to which only what is bound was added are less than every unifier. -/
theorem extends_of_bound (hkept : slots.Extends last)
    (hbound : ∀ slot value, last.Holds slot value → slots.Holds slot value ∨ binds slot value)
    {after : Slots} (hafter : slots.Extends after) (hmeets : after.Meets binds) :
    last.Extends after where
  length_eq := hafter.length_eq.trans hkept.length_eq.symm
  holds slot value hholds :=
    (hbound slot value hholds).elim (hafter.holds slot value) (hmeets slot value)

/-- It is enough to know of a success that what is bound is held. -/
theorem of_meets
    (hdecides : verdict = true ↔ fits ∧ ∃ after, slots.Extends after ∧ after.Meets binds)
    (hmeets : verdict = true → last.Meets binds) (hkept : slots.Extends last)
    (hbound : ∀ slot value, last.Holds slot value → slots.Holds slot value ∨ binds slot value) :
    Unifies fits binds slots verdict last where
  decides := hdecides
  holds_iff hverdict slot value :=
    ⟨hbound slot value, fun heither =>
      heither.elim (hkept.holds slot value) (hmeets hverdict slot value)⟩
  least hverdict := ⟨hmeets hverdict, fun _ => extends_of_bound hkept hbound⟩
  kept := hkept
  bound := hbound

/-- Two matches one after the other, the first of which succeeds, are a match of both. -/
theorem trans (hfirst : Unifies fits binds slots true middle)
    (hsecond : Unifies others more middle verdict last) :
    Unifies (fits ∧ others) (fun slot value => binds slot value ∨ more slot value) slots verdict
      last := by
  obtain ⟨hfits, -⟩ := hfirst.decides.mp rfl
  obtain ⟨hmiddle, hleast⟩ := hfirst.least rfl
  refine of_meets ⟨fun hverdict => ?_, ?_⟩ (fun hverdict => ?_) (hfirst.kept.trans hsecond.kept) ?_
  · obtain ⟨hothers, after, hextends, hmeets⟩ := hsecond.decides.mp hverdict
    refine ⟨⟨hfits, hothers⟩, after, hfirst.kept.trans hextends, fun slot value hbound => ?_⟩
    exact hbound.elim (hmiddle.extend hextends slot value) (hmeets slot value)
  · rintro ⟨⟨-, hothers⟩, after, hextends, hmeets⟩
    have hafter : middle.Extends after :=
      hleast after hextends fun slot value hbound => hmeets slot value (.inl hbound)
    exact hsecond.decides.mpr ⟨hothers, after, hafter, fun slot value hbound =>
      hmeets slot value (.inr hbound)⟩
  · intro slot value hbound
    exact hbound.elim (hmiddle.extend hsecond.kept slot value)
      ((hsecond.least hverdict).1 slot value)
  · intro slot value hholds
    rcases hsecond.bound slot value hholds with hbefore | hbound
    · exact (hfirst.bound slot value hbefore).imp_right .inl
    · exact .inr (.inr hbound)

/-- Where a first match fails, both fail. -/
theorem stop (hfirst : Unifies fits binds slots false last) (others : Prop)
    (more : Nat → Binding → Prop) :
    Unifies (fits ∧ others) (fun slot value => binds slot value ∨ more slot value) slots false
      last := by
  refine of_meets ⟨nofun, ?_⟩ nofun hfirst.kept fun slot value hholds =>
    (hfirst.bound slot value hholds).imp_right .inl
  rintro ⟨⟨hfits, -⟩, after, hextends, hmeets⟩
  exact hfirst.decides.mpr ⟨hfits, after, hextends, fun slot value hbound =>
    hmeets slot value (.inl hbound)⟩

theorem congr {fits' : Prop} {binds' : Nat → Binding → Prop}
    (hunifies : Unifies fits binds slots verdict last) (hfits : fits ↔ fits')
    (hbinds : ∀ slot value, binds slot value ↔ binds' slot value) :
    Unifies fits' binds' slots verdict last := by
  obtain rfl : fits = fits' := propext hfits
  obtain rfl : binds = binds' := funext fun slot => funext fun value => propext (hbinds slot value)
  exact hunifies

end Unifies

namespace Constraint

variable {constraint : Constraint} {constraints : List Constraint} {slots : Slots}

/-- A constraint that is met as far as it does not depend on slots. -/
def Fits : Constraint → Prop
  | require holds => holds = true
  | bind _ _ => True

/-- What a constraint binds. -/
def Binds : Constraint → Nat → Binding → Prop
  | require _, _, _ => False
  | bind slot value, other, bound => other = slot ∧ bound = value

theorem fits_require {holds : Bool} : (require holds).Fits ↔ holds = true := Iff.rfl

theorem binds_require {holds : Bool} {slot : Nat} {value : Binding} :
    (require holds).Binds slot value ↔ False := Iff.rfl

/-- Something is bound by one of several constraints if it is one of them that binds it. -/
theorem exists_binds_iff {slot : Nat} {value : Binding} :
    (∃ constraint ∈ constraints, constraint.Binds slot value) ↔ .bind slot value ∈ constraints := by
  constructor
  · rintro ⟨constraint, hmem, hbinds⟩
    cases constraint with
    | require holds => cases hbinds
    | bind other bound =>
        obtain ⟨rfl, rfl⟩ := hbinds
        exact hmem
  · exact fun hmem => ⟨_, hmem, rfl, rfl⟩

/-- Filling a slot that is free. -/
theorem holds_set {slot : Nat} (hfree : slots[slot]? = some none) (value : Binding) (other : Nat)
    (bound : Binding) :
    Slots.Holds (slots.set slot (some value)) other bound ↔
      slots.Holds other bound ∨ other = slot ∧ bound = value := by
  obtain ⟨hlt, hnone⟩ := List.getElem?_eq_some_iff.mp hfree
  by_cases hother : other = slot
  · subst hother
    simp [Slots.Holds, hlt, hnone, eq_comm]
  · have hne : slot ≠ other := fun heq => hother heq.symm
    simp [Slots.Holds, hother, hne]

/-- One constraint is solved in the least way in which it can be. -/
theorem check_unifies (hwithin : constraint.Within slots.length) :
    ∃ verdict after, constraint.check slots = (.ok verdict, after) ∧
      Unifies constraint.Fits constraint.Binds slots verdict after := by
  cases constraint with
  | require holds =>
      refine ⟨holds, slots, rfl, .of_meets ⟨fun hholds => ?_, And.left⟩
        (fun _ _ _ hbound => hbound.elim) (.refl slots) fun _ _ => .inl⟩
      exact ⟨hholds, slots, .refl slots, fun _ _ hbound => hbound.elim⟩
  | bind slot value =>
      cases hslot : slots[slot]? with
      | none => exact absurd hwithin (Nat.not_lt.mpr (List.getElem?_eq_none_iff.mp hslot))
      | some content =>
          cases content with
          | none =>
              have hholds := holds_set hslot value
              have hextends : slots.Extends (slots.set slot (some value)) :=
                ⟨List.length_set, fun other bound hheld => (hholds other bound).mpr (.inl hheld)⟩
              have hmeets : Slots.Meets (slots.set slot (some value)) (bind slot value).Binds :=
                fun other bound hbound => (hholds other bound).mpr (.inr hbound)
              exact ⟨true, slots.set slot (some value), by simp [check, hslot],
                .of_meets ⟨fun _ => ⟨trivial, _, hextends, hmeets⟩, fun _ => rfl⟩
                  (fun _ => hmeets) hextends fun other bound => (hholds other bound).mp⟩
          | some held =>
              refine ⟨held == value, slots, by simp [check, hslot], .of_meets
                ⟨fun hsame => ⟨trivial, slots, .refl slots, ?_⟩, ?_⟩ (fun hsame => ?_) (.refl slots)
                fun _ _ => .inl⟩
              · rintro other bound ⟨rfl, rfl⟩
                rwa [eq_of_beq hsame] at hslot
              · -- An extension holds what was held, so the slot is not free for another value.
                rintro ⟨-, after, hextends, hmeets⟩
                have hheld := hextends.holds slot held hslot
                have hbound := hmeets slot value ⟨rfl, rfl⟩
                rw [Slots.Holds, hheld] at hbound
                simpa using hbound
              · rintro other bound ⟨rfl, rfl⟩
                rwa [eq_of_beq hsame] at hslot

/-- So are constraints in order. -/
theorem solve_unifies (hwithin : ∀ constraint ∈ constraints, constraint.Within slots.length) :
    ∃ verdict last, solve constraints slots = (.ok verdict, last) ∧
      Unifies (∀ constraint ∈ constraints, constraint.Fits)
        (fun slot value => ∃ constraint ∈ constraints, constraint.Binds slot value) slots verdict
        last := by
  induction constraints generalizing slots with
  | nil =>
      have hmeets : slots.Meets fun slot value =>
          ∃ constraint ∈ ([] : List Constraint), constraint.Binds slot value := by
        rintro _ _ ⟨_, hmem, -⟩
        cases hmem
      exact ⟨true, slots, rfl, .of_meets ⟨fun _ => ⟨by simp, slots, .refl slots, hmeets⟩,
        fun _ => rfl⟩ (fun _ => hmeets) (.refl slots) fun _ _ => .inl⟩
  | cons constraint rest ih =>
      obtain ⟨verdict, after, hcheck, hfirst⟩ :=
        check_unifies (hwithin constraint List.mem_cons_self)
      cases verdict with
      | false =>
          have hstop := hfirst.stop (∀ other ∈ rest, other.Fits) fun slot value =>
            ∃ other ∈ rest, other.Binds slot value
          exact ⟨false, after, by simp [solve, hcheck], hstop.congr (by simp) (by simp)⟩
      | true =>
          have hrest (other : Constraint) (hother : other ∈ rest) : other.Within after.length :=
            hfirst.kept.length_eq ▸ hwithin other (List.mem_cons_of_mem constraint hother)
          obtain ⟨verdict, last, hsolve, hsecond⟩ := ih hrest
          exact ⟨verdict, last, by simp [solve, hcheck, hsolve],
            (hfirst.trans hsecond).congr (by simp) (by simp)⟩

/-- Where constraints are solved, each of them is met, and each slot asked for exists. -/
theorem met_of_solve {last : Slots} (hsolve : solve constraints slots = (.ok true, last)) :
    ∀ constraint ∈ constraints, constraint.Fits ∧ constraint.Within slots.length := by
  induction constraints generalizing slots with
  | nil => exact fun _ hmem => absurd hmem List.not_mem_nil
  | cons constraint rest ih =>
      have hlength := length_check constraint slots
      simp only [solve] at hsolve
      split at hsolve
      · next after hcheck =>
          rw [hcheck] at hlength
          refine List.forall_mem_cons.mpr ⟨?_, hlength ▸ ih hsolve⟩
          cases constraint with
          | require holds => exact ⟨Except.ok.inj (congrArg Prod.fst hcheck), trivial⟩
          | bind slot value =>
              refine ⟨trivial, Nat.lt_of_not_le fun hle => ?_⟩
              rw [check, List.getElem?_eq_none hle] at hcheck
              cases hcheck
      · next hstopped => exact absurd hsolve (hstopped last)

end Constraint

section Terms

variable {α : Type} [DecidableEq α] {term : Term α} {wrap : α → Binding} {value : α}

theorem Term.fits_constraint :
    (term.constraint wrap value).Fits ↔ ∀ wanted, term = .is wanted → value = wanted := by
  cases term with
  | any => exact ⟨fun _ => nofun, fun _ => rfl⟩
  | is wanted =>
      refine beq_iff_eq.trans ⟨?_, fun hfits => (hfits wanted rfl).symm⟩
      rintro rfl _ ⟨⟩
      rfl
  | bind slot => exact ⟨fun _ => nofun, fun _ => trivial⟩

omit [DecidableEq α] in
theorem Term.slot?_eq_some_iff {slot : UInt64} : term.slot? = some slot ↔ term = .bind slot := by
  cases term <;> simp [slot?]

theorem Term.binds_constraint {slot : Nat} {bound : Binding} :
    (term.constraint wrap value).Binds slot bound ↔
      (∃ own, term = .bind own ∧ own.toNat = slot) ∧ bound = wrap value := by
  cases term with
  | any => exact ⟨False.elim, nofun⟩
  | is => exact ⟨False.elim, nofun⟩
  | bind own =>
      rw [show (∃ other, Term.bind own = (.bind other : Term α) ∧ other.toNat = slot) ↔
        slot = own.toNat by simp [eq_comm]]
      exact Iff.rfl

end Terms

namespace Grammar

/-- A pattern that fits a production: every term that asks for one value sees this value, and a
right-hand side that is described by position is as long as its description. -/
structure Pattern.Fits (pattern : Pattern) (production : Production) : Prop where
  lhs : ∀ x, pattern.lhs = .is x → production.lhs = x
  whole : ∀ s, pattern.rhs = .whole (.is s) → production.rhs = s
  length : ∀ terms, pattern.rhs = .positional terms → terms.length = production.rhs.length
  position : ∀ terms (place : Nat) x y, pattern.rhs = .positional terms →
    terms[place]? = some (.is x) → production.rhs.get? place = some y → y = x

/-- What a pattern binds in a production: to each slot the values of the fields that it describes.
A right-hand side is bound as a string if it is described as a whole, and by position symbol by
symbol. -/
inductive Pattern.Binds (pattern : Pattern) (production : Production) : Nat → Binding → Prop
  | lhs {slot : UInt64} (hterm : pattern.lhs = .bind slot) :
      Binds pattern production slot.toNat (.symbol production.lhs)
  | whole {slot : UInt64} (hterm : pattern.rhs = .whole (.bind slot)) :
      Binds pattern production slot.toNat (.symbols production.rhs)
  | position {slot : UInt64} {place : Nat} {terms : List (Term Symbol)} {x : Symbol}
      (hterms : pattern.rhs = .positional terms) (hterm : terms[place]? = some (.bind slot))
      (hx : production.rhs.get? place = some x) : Binds pattern production slot.toNat (.symbol x)

variable {pattern : Pattern} {production : Production}

/-- The constraints of terms by position, one for each term that has a symbol. -/
theorem mem_zipWith_constraint {terms : List (Term Symbol)} {rhs : SymbolString}
    {constraint : Constraint} :
    constraint ∈ terms.zipWith (Term.constraint .symbol) rhs.symbols ↔
      ∃ (place : Nat) (term : Term Symbol) (x : Symbol), terms[place]? = some term ∧
        rhs.get? place = some x ∧ term.constraint .symbol x = constraint := by
  simp only [List.mem_iff_getElem?, List.getElem?_zipWith_eq_some, SymbolString.get?]

theorem Pattern.fits_constraints :
    (∀ constraint ∈ pattern.constraints production, constraint.Fits) ↔ pattern.Fits production := by
  obtain ⟨lhs, rhs⟩ := pattern
  cases rhs with
  | whole term =>
      simp only [constraints, RhsPattern.constraints, List.forall_mem_cons, List.not_mem_nil,
        false_implies, implies_true, and_true, Term.fits_constraint]
      constructor
      · rintro ⟨hlhs, hrhs⟩
        refine ⟨hlhs, fun s hterm => hrhs s (RhsPattern.whole.inj hterm), fun _ hterms => ?_,
          fun _ _ _ _ hterms => ?_⟩
        · cases hterms
        · cases hterms
      · intro hfits
        exact ⟨hfits.lhs, fun s hterm => hfits.whole s (congrArg _ hterm)⟩
  | positional terms =>
      simp only [constraints, RhsPattern.constraints, List.forall_mem_cons, Term.fits_constraint,
        Constraint.fits_require, beq_iff_eq]
      constructor
      · rintro ⟨hlhs, hlength, hall⟩
        refine ⟨hlhs, fun _ hterm => ?_, fun _ hterms => RhsPattern.positional.inj hterms ▸ hlength,
          fun _ place x y hterms hterm hy => ?_⟩
        · cases hterm
        · cases hterms
          exact Term.fits_constraint.mp
            (hall _ (mem_zipWith_constraint.mpr ⟨place, .is x, y, hterm, hy, rfl⟩)) x rfl
      · intro hfits
        refine ⟨hfits.lhs, hfits.length terms rfl, fun constraint hmem => ?_⟩
        obtain ⟨place, term, y, hterm, hy, rfl⟩ := mem_zipWith_constraint.mp hmem
        refine Term.fits_constraint.mpr fun x hx => ?_
        exact hfits.position terms place x y rfl (hx ▸ hterm) hy

theorem Pattern.binds_constraints {slot : Nat} {value : Binding} :
    (∃ constraint ∈ pattern.constraints production, constraint.Binds slot value) ↔
      pattern.Binds production slot value := by
  obtain ⟨lhs, rhs⟩ := pattern
  cases rhs with
  | whole term =>
      simp only [constraints, RhsPattern.constraints, List.exists_mem_cons_iff,
        Term.binds_constraint]
      constructor
      · rintro (⟨⟨own, hterm, rfl⟩, rfl⟩ | ⟨⟨own, hterm, rfl⟩, rfl⟩ | ⟨_, hmem, -⟩)
        · exact .lhs hterm
        · exact .whole (congrArg _ hterm)
        · cases hmem
      · intro hbinds
        cases hbinds with
        | lhs hterm => exact .inl ⟨⟨_, hterm, rfl⟩, rfl⟩
        | whole hterm => exact .inr (.inl ⟨⟨_, RhsPattern.whole.inj hterm, rfl⟩, rfl⟩)
        | position hterms => cases hterms
  | positional terms =>
      simp only [constraints, RhsPattern.constraints, List.exists_mem_cons_iff,
        Term.binds_constraint, Constraint.binds_require, false_or]
      constructor
      · rintro (⟨⟨own, hterm, rfl⟩, rfl⟩ | ⟨constraint, hmem, hbinds⟩)
        · exact .lhs hterm
        · obtain ⟨place, term, x, hterm, hx, rfl⟩ := mem_zipWith_constraint.mp hmem
          obtain ⟨⟨own, rfl, rfl⟩, rfl⟩ := Term.binds_constraint.mp hbinds
          exact .position rfl hterm hx
      · intro hbinds
        cases hbinds with
        | lhs hterm => exact .inl ⟨⟨_, hterm, rfl⟩, rfl⟩
        | whole hterm => cases hterm
        | position hterms hterm hx =>
            cases hterms
            exact .inr ⟨_, mem_zipWith_constraint.mpr ⟨_, _, _, hterm, hx, rfl⟩,
              Term.binds_constraint.mpr ⟨⟨_, rfl, rfl⟩, rfl⟩⟩

end Grammar

namespace Automaton

/-- A pattern that fits a transition: every term that asks for one value sees this value. -/
structure Pattern.Fits (pattern : Pattern) (transition : Transition) : Prop where
  source : ∀ state, pattern.source = .is state → transition.source = state
  read : ∀ x, pattern.read = .is x → transition.read = x
  pop : ∀ x, pattern.pop = .is x → transition.pop = x
  push : ∀ x, pattern.push = .is x → transition.push = x
  sink : ∀ state, pattern.sink = .is state → transition.sink = state

/-- What a pattern binds in a transition: to each slot the values of the fields that it describes.
-/
inductive Pattern.Binds (pattern : Pattern) (transition : Transition) : Nat → Binding → Prop
  | source {slot : UInt64} (hterm : pattern.source = .bind slot) :
      Binds pattern transition slot.toNat (.state transition.source)
  | read {slot : UInt64} (hterm : pattern.read = .bind slot) :
      Binds pattern transition slot.toNat (.symbol transition.read)
  | pop {slot : UInt64} (hterm : pattern.pop = .bind slot) :
      Binds pattern transition slot.toNat (.symbol transition.pop)
  | push {slot : UInt64} (hterm : pattern.push = .bind slot) :
      Binds pattern transition slot.toNat (.symbol transition.push)
  | sink {slot : UInt64} (hterm : pattern.sink = .bind slot) :
      Binds pattern transition slot.toNat (.state transition.sink)

variable {pattern : Pattern} {transition : Transition}

theorem Pattern.fits_constraints :
    (∀ constraint ∈ pattern.constraints transition, constraint.Fits) ↔ pattern.Fits transition := by
  simp only [constraints, List.forall_mem_cons, List.not_mem_nil, false_implies, implies_true,
    and_true, Term.fits_constraint]
  constructor
  · rintro ⟨hsource, hread, hpop, hpush, hsink⟩
    exact ⟨hsource, hread, hpop, hpush, hsink⟩
  · rintro ⟨hsource, hread, hpop, hpush, hsink⟩
    exact ⟨hsource, hread, hpop, hpush, hsink⟩

theorem Pattern.binds_constraints {slot : Nat} {value : Binding} :
    (∃ constraint ∈ pattern.constraints transition, constraint.Binds slot value) ↔
      pattern.Binds transition slot value := by
  simp only [constraints, List.exists_mem_cons_iff, Term.binds_constraint]
  constructor
  · rintro (⟨⟨own, hterm, rfl⟩, rfl⟩ | ⟨⟨own, hterm, rfl⟩, rfl⟩ | ⟨⟨own, hterm, rfl⟩, rfl⟩ |
      ⟨⟨own, hterm, rfl⟩, rfl⟩ | ⟨⟨own, hterm, rfl⟩, rfl⟩ | ⟨_, hmem, -⟩)
    · exact .source hterm
    · exact .read hterm
    · exact .pop hterm
    · exact .push hterm
    · exact .sink hterm
    · cases hmem
  · intro hbinds
    cases hbinds with
    | source hterm => exact .inl ⟨⟨_, hterm, rfl⟩, rfl⟩
    | read hterm => exact .inr (.inl ⟨⟨_, hterm, rfl⟩, rfl⟩)
    | pop hterm => exact .inr (.inr (.inl ⟨⟨_, hterm, rfl⟩, rfl⟩))
    | push hterm => exact .inr (.inr (.inr (.inl ⟨⟨_, hterm, rfl⟩, rfl⟩)))
    | sink hterm => exact .inr (.inr (.inr (.inr (.inl ⟨⟨_, hterm, rfl⟩, rfl⟩))))

end Automaton

end FormalLanguages
