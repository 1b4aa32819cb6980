/-
# What a walk has seen and what is onward cover all that stays

A walk through a graph that changes under it is described by the elements it has seen so far and by
the places onward from its cursor.  All that was seen lies in front of what is onward.  Every
element that was there when the walk began, and is still live and accepted, has been seen or is
onward.

Seeking the next element keeps this, and any change of the graph keeps it as well, provided that the
element at the cursor stays stored: new elements have new numbers, and all others stay where they
are.  At the end of the walk nothing is onward, so what has stayed has been seen.
-/

import FormalLanguages.Proofs.Graph.Change
import FormalLanguages.Proofs.Graph.Seek

namespace FormalLanguages.Graph

variable {α β : Type} {graph after : Graph α} {confined : Bool} {accepts : Element α → Option β}
  {cursor next : Option Key} {floor : Nat} {seen : List (Element α)} {key : Key} {entry : Entry α}
  {value : β}

/-- The elements with a number below the floor that are live and accepted have been seen or are
onward from the cursor. -/
structure Covers (graph : Graph α) (confined : Bool) (accepts : Element α → Option β) (floor : Nat)
    (cursor : Option Key) (seen : List (Element α)) : Prop where
  floor_le : floor ≤ graph.nextId.value
  increasing : seen.Pairwise fun first second => first.place < second.place
  behind : ∀ element ∈ seen, ∀ place, graph.Onward confined cursor place → element.place < place
  complete : ∀ key entry, graph.stored? key = some entry → entry.deleted = false →
    entry.id < floor → accepts entry.toElement ≠ none →
      entry.toElement ∈ seen ∨ graph.Onward confined cursor entry.place

/-- Changes of a graph leave what is onward from a stored element as it is. -/
theorem onward_iff (hkept : ∀ key entry, cursor = some key → graph.stored? key = some entry →
      ∃ now, after.stored? key = some now ∧ entry.Becomes now)
    (hpositioned : graph.Positioned cursor) (place : Place) :
    after.Onward confined cursor place ↔ graph.Onward confined cursor place := by
  cases cursor with
  | none =>
      have hnone (graph : Graph α) := not_onward_none graph confined place
      simp [hnone]
  | some key =>
      obtain ⟨entry, hentry⟩ := hpositioned key rfl
      obtain ⟨now, hnow, hbecomes⟩ := hkept key entry rfl hentry
      have hplace : after.place? key = graph.place? key := by
        rw [place?, place?, hnow, hentry, Option.map_some, Option.map_some, hbecomes.place_eq]
      simp only [Onward, Option.some.injEq, exists_eq_left', exists_and_left, hplace]

namespace Covers

variable (hcovers : graph.Covers confined accepts floor cursor seen)

include hcovers

/-- A walk goes on as if nothing had happened after any change that keeps the element at its
cursor. -/
theorem ages (hages : graph.Ages after) (hpositioned : graph.Positioned cursor)
    (hkept : ∀ key entry, cursor = some key → graph.stored? key = some entry →
      ∃ now, after.stored? key = some now ∧ entry.Becomes now) :
    after.Covers confined accepts floor cursor seen where
  floor_le := Nat.le_trans hcovers.floor_le hages.nextId_le
  increasing := hcovers.increasing
  behind element helement place honward :=
    hcovers.behind element helement place ((onward_iff hkept hpositioned place).mp honward)
  complete key now hnow hlive hold haccepted := by
    obtain ⟨entry, hentry, hbecomes⟩ :=
      hages.origin key now hnow (Nat.lt_of_lt_of_le hold hcovers.floor_le)
    have hsame := hbecomes.toElement_eq hlive
    rw [hsame] at hold haccepted ⊢
    have hliveEntry : entry.deleted = false :=
      (congrArg Element.deleted hsame).symm.trans hlive
    rw [onward_iff hkept hpositioned]
    exact hcovers.complete key entry hentry hliveEntry hold haccepted

/-- The element that is found next has been seen from then on. -/
theorem found (hfound : graph.Found confined accepts cursor key entry value next) :
    graph.Covers confined accepts floor next (seen ++ [entry.toElement]) where
  floor_le := hcovers.floor_le
  increasing := by
    refine List.pairwise_append.mpr ⟨hcovers.increasing, List.pairwise_singleton _ _,
      fun element helement other hother => ?_⟩
    rw [List.mem_singleton.mp hother]
    exact hcovers.behind element helement _ hfound.onward
  behind element helement place honward := by
    have hbehind := (hfound.behind place honward).1
    rcases List.mem_append.mp helement with hseen | hnew
    · exact Place.lt_trans (hcovers.behind element hseen _ hfound.onward) hbehind
    · rw [List.mem_singleton.mp hnew]
      exact hbehind
  complete other now hnow hlive hold haccepted := by
    rcases hcovers.complete other now hnow hlive hold haccepted with hseen | honward
    · exact .inl (List.mem_append_left _ hseen)
    · rcases hfound.least other now hnow hlive haccepted honward with rfl | hbehind
      · cases hnow.symm.trans hfound.entry_eq
        exact .inl (List.mem_append_right _ List.mem_cons_self)
      · exact .inr (hfound.onward_next other now.place (place?_of_stored hnow) hbehind)

/-- Where nothing more is found, what is live and accepted has been seen. -/
theorem exhausted (hnone : ∀ key entry, graph.stored? key = some entry → entry.deleted = false →
      graph.Onward confined cursor entry.place → accepts entry.toElement = none) :
    graph.Covers confined accepts floor none seen where
  floor_le := hcovers.floor_le
  increasing := hcovers.increasing
  behind element _ place honward := absurd honward (not_onward_none graph confined place)
  complete key entry hentry hlive hold haccepted := by
    rcases hcovers.complete key entry hentry hlive hold haccepted with hseen | honward
    · exact .inl hseen
    · exact absurd (hnone key entry hentry hlive honward) haccepted

end Covers

/-- A walk that begins in front of all that is accepted has seen nothing yet. -/
theorem covers_start (hfloor : floor ≤ graph.nextId.value)
    (honward : ∀ key entry, graph.stored? key = some entry → accepts entry.toElement ≠ none →
      graph.Onward confined cursor entry.place) :
    graph.Covers confined accepts floor cursor [] where
  floor_le := hfloor
  increasing := .nil
  behind element helement := by cases helement
  complete key entry hentry _ _ haccepted := .inr (honward key entry hentry haccepted)

end FormalLanguages.Graph
