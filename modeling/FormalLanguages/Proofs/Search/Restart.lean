/-
# A search starts from its origin and rests at its end

Setting a search to its beginning asks what it runs along, and forgets where it has come to.  So a
search that has just been rewound, one that starts anew as a copy, and a new one along the same
axis produce the same rows from the same containers; they may differ in the serial of the pattern.

Once a search is exhausted it is at no element and has no match, and going on leaves it so.
-/

import FormalLanguages.Proofs.Search
import FormalLanguages.Proofs.Search.Uncounted

namespace FormalLanguages

variable {C α P E : Type} [Container C α P E] {containers : Array C}

namespace Axis

/-- What an axis runs along, without its position and the serial of its pattern. -/
def origin : Axis P → Axis P
  | elements _ => elements none
  | groups _ => groups 0
  | terminals _ => terminals 0
  | matching pattern _ => matching { pattern with serial := 0 } none

/-- The beginning of an axis does not depend on its position. -/
theorem start_origin (axis : Axis P) (container : C) :
    axis.origin.start container = anonymous <$> axis.start container := by
  rw [← start_anonymous]
  cases axis <;> rfl

/-- An axis at its beginning stays there when it is set to its beginning. -/
theorem start_start {axis after : Axis P} {container : C}
    (hstart : axis.start container = .ok after) : after.start container = .ok after := by
  cases axis with
  | elements cursor =>
      obtain ⟨first, hfirst, hafter⟩ := bind_eq_ok.mp hstart
      cases hafter
      simp only [start, hfirst, ok_bind, pure_eq_ok]
  | groups offset =>
      obtain ⟨first, hfirst, hafter⟩ := bind_eq_ok.mp hstart
      cases hafter
      simp only [start, hfirst, ok_bind, pure_eq_ok]
  | terminals offset =>
      cases hstart
      rfl
  | matching pattern cursor =>
      simp only [start] at hstart
      split at hstart
      · next hscope =>
          cases hstart
          simp only [start, hscope, pure_eq_ok]
      · next hscope =>
          obtain ⟨first, hfirst, hafter⟩ := bind_eq_ok.mp hstart
          cases hafter
          simp only [start, hscope, hfirst, ok_bind, pure_eq_ok]

end Axis

namespace Search

variable {search fresh rewound next : Search P}

/-- What a search runs along, without its position and the serial of its pattern. -/
def origin (search : Search P) : Option (Nat × Axis P) :=
  search.target.map fun (number, axis) => (number, axis.origin)

/-- The beginning of a search depends on its origin only. -/
theorem rewind_origin (containers : Array C) (search : Search P) :
    anonymous <$> search.rewind containers = rewind containers { target := search.origin } := by
  obtain ⟨target, progress, current⟩ := search
  cases target with
  | none => rfl
  | some target =>
      obtain ⟨number, axis⟩ := target
      simp only [rewind, origin, Option.map_some, map_bind, Axis.start_origin]
      congr
      funext container
      cases axis.start container <;> rfl

/-- A search that has just been rewound is running, in the container in which it was. -/
theorem rewound_of_rewind (hrewind : search.rewind containers = .ok rewound) :
    rewound.progress = .running ∧ rewound.current = .empty ∧
      rewound.rowBound containers = search.rowBound containers := by
  obtain ⟨target, progress, current⟩ := search
  cases target with
  | none =>
      cases hrewind
      exact ⟨rfl, rfl, rfl⟩
  | some target =>
      simp only [rewind, bind_eq_ok] at hrewind
      obtain ⟨container, hcontainer, axis, hstart, hrewound⟩ := hrewind
      cases hrewound
      exact ⟨rfl, rfl, rfl⟩

/-- A search that has just been rewound refers to one element at most. -/
theorem holds_rewound (hrewind : search.rewind containers = .ok rewound) :
    rewound.holds = [] ∨ ∃ handle, rewound.holds = [handle] := by
  have hcurrent := (rewound_of_rewind hrewind).2.1
  unfold holds
  rw [hcurrent]
  cases rewound.target with
  | none => exact .inl rfl
  | some target =>
      obtain ⟨number, axis⟩ := target
      cases hcursor : axis.cursor with
      | none => exact .inl (by simp [hcursor, Match.empty])
      | some key => exact .inr ⟨⟨number, key⟩, by simp [hcursor, Match.empty]⟩

/-- Rewinding again changes nothing. -/
theorem rewind_rewind (hrewind : search.rewind containers = .ok rewound) :
    rewound.rewind containers = .ok rewound := by
  obtain ⟨target, progress, current⟩ := search
  cases target with
  | none =>
      cases hrewind
      rfl
  | some target =>
      simp only [rewind, bind_eq_ok] at hrewind
      obtain ⟨container, hcontainer, axis, hstart, hrewound⟩ := hrewind
      cases hrewound
      simp only [rewind, hcontainer, Axis.start_start hstart, ok_bind, pure_eq_ok]

/-- A search that has not been started produces what it produces once it is rewound. -/
theorem take_unstarted (hunstarted : search.progress = .unstarted)
    (hrewind : search.rewind containers = .ok rewound) (limit : Nat) :
    search.take containers (limit + 1) = rewound.take containers (limit + 1) := by
  have hrunning := (rewound_of_rewind hrewind).1
  simp only [take, matchNext, hunstarted, hrewind, hrunning, ok_bind]

theorem takeUpTo_unstarted (hunstarted : search.progress = .unstarted)
    (hrewind : search.rewind containers = .ok rewound) (limit : Option Nat) :
    Prod.fst <$> search.takeUpTo containers limit =
      Prod.fst <$> rewound.takeUpTo containers limit := by
  cases limit with
  | none =>
      simp only [takeUpTo, drain, (rewound_of_rewind hrewind).2.2,
        take_unstarted hunstarted hrewind]
  | some limit =>
      cases limit with
      | zero => rfl
      | succ limit => simp only [takeUpTo, take_unstarted hunstarted hrewind]

/-- A search that has not been started produces the rows that another one along the same axis
produces once it is rewound. -/
theorem rows_of_origin [LawfulContainer C α P E] [Uncounting C α P E]
    (hunstarted : fresh.progress = .unstarted) (horigin : fresh.origin = search.origin)
    (hrewind : search.rewind containers = .ok rewound) (limit : Option Nat) :
    Prod.fst <$> fresh.takeUpTo containers limit =
      Prod.fst <$> rewound.takeUpTo containers limit := by
  have hsame : anonymous <$> fresh.rewind containers = anonymous <$> search.rewind containers := by
    rw [rewind_origin, rewind_origin, horigin]
  rw [hrewind] at hsame
  rcases (agree_of_map_eq hsame).results with
    ⟨begun, _, hbegun, hfound, hanonymous⟩ | ⟨_, _, hfault⟩
  · cases hfound
    have hcongr := takeUpTo_congr (rfl : containers.map Container.uncounted = _) hanonymous limit
    have hrows := congrArg (fun result => Prod.fst <$> result) hcongr
    simp only [Functor.map_map] at hrows
    exact (takeUpTo_unstarted hunstarted hbegun limit).trans hrows
  · cases hfault

/-- An exhausted search is one behind its last match: at no element, and without a match. -/
def Settled (search : Search P) : Prop :=
  search.progress = .exhausted → search.exhaust = search

theorem settled_exhaust (search : Search P) : search.exhaust.Settled := by
  intro _
  obtain ⟨target, progress, current⟩ := search
  cases target with
  | none => rfl
  | some target =>
      obtain ⟨number, axis⟩ := target
      cases axis <;> rfl

theorem settled_advance {found : Except Fault Bool} (hrunning : search.progress = .running)
    (hadvance : search.advance containers = .ok (found, next)) : next.Settled := by
  unfold advance at hadvance
  split at hadvance
  · cases hadvance
    exact search.settled_exhaust
  · obtain ⟨container, -, hadvance⟩ := bind_eq_ok.mp hadvance
    obtain ⟨outcome, -, hadvance⟩ := bind_eq_ok.mp hadvance
    cases outcome with
    | error fault =>
        cases hadvance
        intro hexhausted
        cases hrunning.symm.trans hexhausted
    | ok result =>
        cases result with
        | none =>
            cases hadvance
            exact search.settled_exhaust
        | some result =>
            cases hadvance
            intro hexhausted
            cases hrunning.symm.trans hexhausted

variable (C) in
/-- A property of searches that are new, of those that have been rewound, and of those that have
gone on from one that had it. -/
structure Hereditary (holds : Search P → Prop) : Prop where
  fresh : ∀ target, holds { target }
  rewound : ∀ {containers : Array C} {search rewound : Search P},
    search.rewind containers = .ok rewound → holds rewound
  advanced : ∀ {containers : Array C} {search next : Search P} {found : Except Fault Bool},
    holds search → search.progress = .running →
      search.advance containers = .ok (found, next) → holds next

namespace Hereditary

variable {holds : Search P → Prop} (hereditary : Hereditary C holds) (hholds : holds search)

include hereditary hholds

theorem matchNext {found : Except Fault Bool}
    (hnext : search.matchNext containers = .ok (found, next)) : holds next := by
  unfold Search.matchNext at hnext
  split at hnext
  · obtain ⟨rewound, hrewind, hadvance⟩ := bind_eq_ok.mp hnext
    exact hereditary.advanced (hereditary.rewound hrewind) (rewound_of_rewind hrewind).1 hadvance
  · next hrunning => exact hereditary.advanced hholds hrunning hnext
  · cases hnext
    exact hholds

theorem take {limit : Nat} {rows : Except Fault (List Match)}
    (htake : search.take containers limit = .ok (rows, next)) : holds next := by
  induction limit generalizing search rows with
  | zero =>
      cases htake
      exact hholds
  | succ limit ih =>
      simp only [Search.take, bind_eq_ok, Prod.exists] at htake
      obtain ⟨found, after, hnext, hrest⟩ := htake
      have hafter := hereditary.matchNext hholds hnext
      split at hrest
      · cases hrest
        exact hafter
      · cases hrest
        exact hafter
      · obtain ⟨result, hresult, heq⟩ := bind_eq_ok.mp hrest
        cases heq
        exact ih hafter hresult

theorem takeUpTo {limit : Option Nat} {rows : Except Fault (List Match)}
    (htake : search.takeUpTo containers limit = .ok (rows, next)) : holds next := by
  cases limit with
  | some limit => exact hereditary.take hholds htake
  | none =>
      obtain ⟨limit, hlimit, -⟩ := take_of_drain htake
      exact hereditary.take hholds hlimit

end Hereditary

/-- Every search that is exhausted is behind its last match. -/
theorem hereditary_settled : Hereditary C (Settled : Search P → Prop) where
  fresh target hexhausted := by cases hexhausted
  rewound hrewind hexhausted := by
    cases (rewound_of_rewind hrewind).1.symm.trans hexhausted
  advanced _ hrunning hadvance := settled_advance hrunning hadvance

/-- An exhausted search has no rows left, and draining it leaves it as it is. -/
theorem takeUpTo_exhausted {bound : Nat} (hexhausted : search.progress = .exhausted)
    (hbound : search.rowBound containers = .ok bound) (limit : Option Nat) :
    search.takeUpTo containers limit = .ok (.ok [], search) := by
  cases limit with
  | some limit => exact take_exhausted hexhausted limit
  | none => simp [takeUpTo, drain, hbound, take_exhausted hexhausted, hexhausted]

end Search

end FormalLanguages
