/-
# A search along elements sees what stays

A search that runs along the elements of a container, all of them or those that match a pattern, is
tracked by the elements it has produced since it was rewound.  Every row it produces is that of a
live element which the axis selects, and while the search is running these elements and what is
onward from its position cover all that was there at the beginning and has stayed.

The tracking begins with a search that is about to be rewound or has just been, it goes on with
every further match, and it survives every change of the container that keeps the element at the
position of the search stored.
-/

import FormalLanguages.Proofs.Graph.Cover
import FormalLanguages.Proofs.Search

namespace FormalLanguages

variable {C α P E : Type} [Container C α P E] {containers : Array C} {container now : C}
  {number floor : Nat} {axis : Axis P} {seen : List (Element α)} {search : Search P}

namespace Axis

variable (C) in
/-- Whether an axis along elements is to produce an element, with the slots a pattern fills. -/
def Selects (axis : Axis P) (element : Element α) (slots : Slots) : Prop :=
  match axis with
  | elements _ => slots = []
  | matching pattern _ => slotsOf (C := C) pattern.pattern element = .ok (some slots)
  | _ => False

theorem selects_iff {element : Element α} {slots : Slots} :
    axis.Selects C element slots ↔ axis.accepts C element = some slots := by
  cases axis with
  | elements cursor => simp [Selects, accepts, eq_comm]
  | matching pattern cursor => exact slotsOf_eq_some_iff
  | groups offset => simp [Selects, accepts]
  | terminals offset => simp [Selects, accepts]

/-- What an axis accepts is within its scope. -/
theorem group_of_accepts [LawfulContainer C α P E] (hsound : LawfulContainer.Sound container)
    {key : Key} {entry : Entry α} (hentry : (Container.graph container).stored? key = some entry)
    {slots : Slots} (haccepted : axis.accepts C entry.toElement = some slots) {group : Nat}
    (hscope : axis.scope C = some group) : entry.group = group := by
  refine group_of_verdict hsound hentry ?_ hscope
  rw [accepts_eq_some_iff.mp haccepted]
  exact Option.some_ne_none _

end Axis

/-- A row of an axis along elements, and the element that it was produced for. -/
structure Produces (container : C) (number : Nat) (axis : Axis P) (row : Match)
    (element : Element α) : Prop where
  /-- The row names the element, which is stored. -/
  stored : ∃ key, row.element = some ⟨number, key⟩ ∧
    (Container.graph container).element key = .ok element
  live : element.deleted = false
  selected : axis.Selects C element row.slots
  /-- The row reports the element's own group. -/
  group_eq : row.group = some element.group
  /-- An axis that is confined to a group produces no element of another one. -/
  confined : ∀ group, axis.scope C = some group → element.group = group

theorem Produces.recounted {row : Match} {element : Element α}
    (hproduces : Produces container number axis row element)
    (hrecounted : (Container.graph container).Recounted (Container.graph now)) :
    Produces now number axis row element := by
  obtain ⟨key, hrow, helement⟩ := hproduces.stored
  obtain ⟨entry, hentry, rfl⟩ := Graph.element_eq_ok_iff.mp helement
  obtain ⟨found, hfound, heq⟩ := hrecounted.exists_entry hentry
  exact ⟨⟨key, hrow, Graph.element_eq_ok_iff.mpr ⟨found, hfound, heq⟩⟩, hproduces.live,
    hproduces.selected, hproduces.group_eq, hproduces.confined⟩

namespace Search

/-- A search that is tracked from its beginning, with the elements it has produced since. -/
inductive Tracks (container : C) (number : Nat) (axis : Axis P) (floor : Nat) :
    Search P → List (Element α) → Prop
  | unstarted {cursor : Option Key} {current : Match}
      (hfloor : floor ≤ (Container.graph container).nextId.value) :
      Tracks container number axis floor
        ⟨some (number, axis.moveTo cursor), .unstarted, current⟩ []
  | running {cursor : Option Key} {current : Match} {seen : List (Element α)}
      (hcovers : (Container.graph container).Covers (axis.scope C).isSome (axis.accepts C) floor
        cursor seen) :
      Tracks container number axis floor
        ⟨some (number, axis.moveTo cursor), .running, current⟩ seen
  | exhausted {current : Match} {seen : List (Element α)}
      (hcovers : (Container.graph container).Covers (axis.scope C).isSome (axis.accepts C) floor
        none seen) :
      Tracks container number axis floor
        ⟨some (number, axis.moveTo none), .exhausted, current⟩ seen

/-- A search that has not been started is tracked wherever its axis has been left. -/
theorem tracks_unstarted (current : Match)
    (hfloor : floor ≤ (Container.graph container).nextId.value) :
    Tracks container number axis floor ⟨some (number, axis), .unstarted, current⟩ [] := by
  have hunstarted : Tracks container number axis floor
      ⟨some (number, axis.moveTo axis.cursor), .unstarted, current⟩ [] := .unstarted hfloor
  rwa [Axis.moveTo_cursor] at hunstarted

/-- The outcome of one more step of a tracked search: it has come to its end, or it has been broken
off, or it has produced one more element. -/
def Goes (container : C) (number : Nat) (axis : Axis P) (floor : Nat) (seen : List (Element α)) :
    Except Fault Bool × Search P → Prop
  | (.ok true, next) => ∃ element, Produces container number axis next.current element ∧
      Tracks container number axis floor next (seen ++ [element])
  | (_, next) => Tracks container number axis floor next seen

/-- Tracking survives every change that keeps the element at the position stored. -/
theorem Tracks.ages (htracks : Tracks container number axis floor search seen)
    (haxis : axis.AlongElements) (hcontainer : containers[number]? = some container)
    (hheld : search.Held containers)
    (hages : (Container.graph container).Ages (Container.graph now))
    (hkept : ∀ key entry, Handle.mk number key ∈ search.holds →
      (Container.graph container).stored? key = some entry →
        ∃ found, (Container.graph now).stored? key = some found ∧ entry.Becomes found) :
    Tracks now number axis floor search seen := by
  cases htracks with
  | unstarted hfloor => exact .unstarted (Nat.le_trans hfloor hages.nextId_le)
  | @running cursor current _ hcovers =>
      have hholds (key : Key) (hkey : cursor = some key) :
          Handle.mk number key ∈
            (⟨some (number, axis.moveTo cursor), .running, current⟩ : Search P).holds := by
        simp [holds, Axis.cursor_moveTo haxis, hkey]
      refine .running (hcovers.ages hages ?_ ?_)
      · intro key hkey
        obtain ⟨entry, hentry⟩ := hheld _ (hholds key hkey)
        exact ⟨entry, (entryAt_eq hcontainer key).symm.trans hentry⟩
      · intro key entry hkey
        exact hkept key entry (hholds key hkey)
  | exhausted hcovers =>
      exact .exhausted (hcovers.ages hages (fun key hkey => by cases hkey) fun key entry hkey => by
        cases hkey)

/-- The elements that a tracked search has produced are in the order of their places. -/
theorem Tracks.increasing (htracks : Tracks container number axis floor search seen) :
    seen.Pairwise fun first second => first.place < second.place := by
  cases htracks with
  | unstarted => exact .nil
  | running hcovers => exact hcovers.increasing
  | exhausted hcovers => exact hcovers.increasing

/-- At the end of a tracked search, every element from its beginning that is still live and selected
has been produced. -/
theorem Tracks.complete
    (htracks : Tracks container number axis floor search seen)
    (hexhausted : search.progress = .exhausted) {key : Key} {element : Element α} {slots : Slots}
    (helement : (Container.graph container).element key = .ok element)
    (hlive : element.deleted = false) (hold : element.id < floor)
    (hselects : axis.Selects C element slots) : element ∈ seen := by
  cases htracks with
  | unstarted => cases hexhausted
  | running => cases hexhausted
  | exhausted hcovers =>
      obtain ⟨entry, hentry, rfl⟩ := Graph.element_eq_ok_iff.mp helement
      have haccepted : axis.accepts C entry.toElement ≠ none := by
        rw [Axis.selects_iff.mp hselects]
        exact Option.some_ne_none slots
      rcases hcovers.complete key entry hentry hlive hold haccepted with hseen | honward
      · exact hseen
      · exact absurd honward (Graph.not_onward_none _ _ _)

variable [LawfulContainer C α P E] (hall : AllSound containers) (haxis : axis.AlongElements)
  (hcontainer : containers[number]? = some container)

include hall haxis hcontainer

/-- A search that is rewound is tracked from there on. -/
theorem rewind_tracks (hfloor : floor ≤ (Container.graph container).nextId.value)
    (cursor : Option Key) (progress : Progress) (current : Match) :
    ∃ cursor', (⟨some (number, axis.moveTo cursor), progress, current⟩ : Search P).rewind
        containers = .ok ⟨some (number, axis.moveTo cursor'), .running, .empty⟩ ∧
      (Container.graph container).Positioned cursor' ∧
      (Container.graph container).Covers (axis.scope C).isSome (axis.accepts C) floor
        cursor' [] := by
  have hsound := hall number container hcontainer
  have halong : (axis.moveTo cursor).AlongElements := Axis.alongElements_moveTo haxis
  obtain ⟨cursor', hstart, hpositioned, honward⟩ := Axis.start_along hsound halong
  rw [Axis.moveTo_moveTo] at hstart
  rw [Axis.scope_moveTo] at honward
  refine ⟨cursor', by simp [rewind, containerAt_eq hcontainer, hstart], hpositioned,
    Graph.covers_start hfloor fun key entry hentry haccepted => honward key entry hentry ?_⟩
  intro group hscope
  obtain ⟨slots, hslots⟩ := Option.ne_none_iff_exists'.mp haccepted
  exact Axis.group_of_accepts hsound hentry hslots hscope

theorem advance_tracks {cursor : Option Key} (current : Match)
    (hpositioned : (Container.graph container).Positioned cursor)
    (hcovers : (Container.graph container).Covers (axis.scope C).isSome (axis.accepts C) floor
      cursor seen) :
    ∃ outcome, (⟨some (number, axis.moveTo cursor), .running, current⟩ : Search P).advance
        containers = .ok outcome ∧ Goes container number axis floor seen outcome := by
  have hsound := hall number container hcontainer
  have halong : (axis.moveTo cursor).AlongElements := Axis.alongElements_moveTo haxis
  have hadvance := Axis.advance_along hsound halong (by rwa [Axis.cursor_moveTo haxis]) number
  rw [Axis.scope_moveTo, Axis.accepts_moveTo, Axis.cursor_moveTo haxis] at hadvance
  rcases hadvance with ⟨hadvance, hnone⟩ | ⟨key, entry, slots, next, hadvance, hfound⟩ |
    ⟨fault, hadvance, hoverruns⟩
  · refine ⟨(.ok false, exhaust ⟨some (number, axis.moveTo cursor), .running, current⟩),
      by simp [advance, containerAt_eq hcontainer, hadvance], ?_⟩
    simp only [Goes, exhaust, Option.map_some, Axis.detach_eq, Axis.moveTo_moveTo]
    exact .exhausted (hcovers.exhausted hnone)
  · rw [Axis.moveTo_moveTo] at hadvance
    let found : Match := { element := some ⟨number, key⟩, group := some entry.group, slots }
    have helement := Graph.element_eq_ok_iff.mpr ⟨entry, hfound.entry_eq, rfl⟩
    have hproduces : Produces container number axis found entry.toElement :=
      ⟨⟨key, rfl, helement⟩, hfound.live, Axis.selects_iff.mpr hfound.accepted, rfl,
        fun _ => Axis.group_of_accepts hsound hfound.entry_eq hfound.accepted⟩
    refine ⟨(.ok true, ⟨some (number, axis.moveTo next), .running, found⟩), ?_, entry.toElement,
      hproduces, .running (hcovers.found hfound)⟩
    simp [advance, containerAt_eq hcontainer, hadvance, found]
  · -- A pattern that can be broken off accepts nothing, so nothing is missed.
    have hnone := Axis.accepts_of_overruns (Axis.overruns_moveTo.mp hoverruns)
    refine ⟨(.error fault, lose ⟨some (number, axis.moveTo cursor), .running, current⟩),
      by simp [advance, containerAt_eq hcontainer, hadvance], ?_⟩
    simp only [Goes, lose, Option.map_some, Axis.detach_eq, Axis.moveTo_moveTo]
    exact .running (hcovers.exhausted fun _ entry _ _ _ => hnone entry.toElement)

/-- Going on to the next match keeps track of a search. -/
theorem Tracks.matchNext (htracks : Tracks container number axis floor search seen)
    (hheld : search.Held containers) :
    ∃ outcome, search.matchNext containers = .ok outcome ∧
      Goes container number axis floor seen outcome := by
  cases htracks with
  | @unstarted cursor current hfloor =>
      obtain ⟨cursor', hrewind, hpositioned, hcovers⟩ :=
        rewind_tracks hall haxis hcontainer hfloor cursor .unstarted current
      obtain ⟨outcome, hadvance, hgoes⟩ :=
        advance_tracks hall haxis hcontainer .empty hpositioned hcovers
      exact ⟨outcome, by simp [Search.matchNext, hrewind, hadvance], hgoes⟩
  | @running cursor current _ hcovers =>
      have hpositioned : (Container.graph container).Positioned cursor := fun key hkey => by
        obtain ⟨entry, hentry⟩ := hheld ⟨number, key⟩ (by
          simp [holds, Axis.cursor_moveTo haxis, hkey])
        exact ⟨entry, (entryAt_eq hcontainer key).symm.trans hentry⟩
      obtain ⟨outcome, hadvance, hgoes⟩ :=
        advance_tracks hall haxis hcontainer current hpositioned hcovers
      exact ⟨outcome, by simp [Search.matchNext, hadvance], hgoes⟩
  | exhausted hcovers => exact ⟨_, rfl, .exhausted hcovers⟩

end Search

end FormalLanguages
