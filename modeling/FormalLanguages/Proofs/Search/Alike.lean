/-
# Searches that cannot be told apart

The same search may run in two containers that are alike, one of which has freed tombstones that the
other still stores.  The positions of the two then need not be equal: along elements they are
abreast, and along groups there may be groups between them that neither of the containers shows.
Whatever the searches are asked next, they answer the same, and they cannot be told apart
afterwards.

A search that is not running has no position that matters, because it will be rewound before it goes
on.
-/

import FormalLanguages.Proofs.Graph.Alike
import FormalLanguages.Proofs.Search.Enumeration

namespace FormalLanguages

/-- Containers that show nothing of the tombstones that they store. -/
class Concealing (C : Type) (α P E T : outParam Type) [Container C α P E]
    [LawfulContainer C α P E] where
  /-- What a container keeps beside its elements and the index of them. -/
  tables : C → T
  /-- The changes that may add an element. -/
  Adds : E → Prop
  tables_setGraph (container : C) (graph : Graph α) :
    tables (Container.setGraph container graph) = tables container
  tables_reclaim {container after : C} {count : Nat}
    (hreclaim : Container.reclaim container = .ok (count, after)) :
    tables after = tables container
  terminalCount_eq {container other : C} (htables : tables container = tables other) :
    Container.terminalCount container = Container.terminalCount other
  shows_eq {container other : C} (hsound : LawfulContainer.Sound container)
    (hother : LawfulContainer.Sound other)
    (halike : (Container.graph container).Alike (Container.graph other)) (group : Nat) :
    Container.shows container group = Container.shows other group
  /-- A group that is not shown will not be shown before an element is added. -/
  hidden {container after : C} (hsound : LawfulContainer.Sound container)
    (hafter : LawfulContainer.Sound after)
    (hwanes : (Container.graph container).Wanes (Container.graph after)) {group : Nat}
    (hgroup : group < (Container.graph container).groups.size)
    (hshows : Container.shows container group = .ok false) :
    Container.shows after group = .ok false
  /-- Of two containers that are alike, one may start at an earlier group, but not at an earlier one
  that is shown. -/
  passed {container other : C} (hsound : LawfulContainer.Sound container)
    (hother : LawfulContainer.Sound other)
    (halike : (Container.graph container).Alike (Container.graph other)) {first later group : Nat}
    (hfirst : Container.firstGroup container = .ok first)
    (hlater : Container.firstGroup other = .ok later) (hle : first ≤ group) (hlt : group < later) :
    group < (Container.graph container).groups.size ∧
      Container.shows container group = .ok false
  edit_alike {container other : C} (hsound : LawfulContainer.Sound container)
    (hother : LawfulContainer.Sound other)
    (halike : (Container.graph container).Alike (Container.graph other))
    (htables : tables container = tables other) {change : E} (hadds : ¬Adds change) :
    ∃ answer after next, Container.edit container change = .ok (answer, after) ∧
      Container.edit other change = .ok (answer, next) ∧
      (Container.graph after).Alike (Container.graph next) ∧ tables after = tables next ∧
      (Container.graph container).Wanes (Container.graph after) ∧
      (Container.graph other).Wanes (Container.graph next) ∧ ∀ key, answer ≠ .element key

variable {C α P E T : Type} [Container C α P E] [LawfulContainer C α P E] [Concealing C α P E T]

/-- Two containers that can only be told apart by their tombstones. -/
structure Twins (container other : C) : Prop where
  sound : LawfulContainer.Sound container
  sound' : LawfulContainer.Sound other
  alike : (Container.graph container).Alike (Container.graph other)
  tables_eq : Concealing.tables container = Concealing.tables other

theorem Twins.symm {container other : C} (htwins : Twins container other) :
    Twins other container :=
  ⟨htwins.sound', htwins.sound, htwins.alike.symm, htwins.tables_eq.symm⟩

/-- As many containers as there are others, and each the twin of the other with its number. -/
structure AllTwins (containers others : Array C) : Prop where
  size_eq : others.size = containers.size
  twins : ∀ (number : Nat) (container other : C), containers[number]? = some container →
    others[number]? = some other → Twins container other

namespace AllTwins

variable {containers others : Array C} (htwins : AllTwins containers others)

include htwins

theorem symm : AllTwins others containers :=
  ⟨htwins.size_eq.symm, fun number _ _ hcontainer hother =>
    (htwins.twins number _ _ hother hcontainer).symm⟩

theorem exists_other {number : Nat} {container : C}
    (hcontainer : containers[number]? = some container) :
    ∃ other, others[number]? = some other ∧ Twins container other := by
  have hlt := (Array.getElem?_eq_some_iff.mp hcontainer).1
  obtain ⟨other, hother⟩ : ∃ other, others[number]? = some other :=
    ⟨_, Array.getElem?_eq_getElem (htwins.size_eq ▸ hlt)⟩
  exact ⟨other, hother, htwins.twins number _ _ hcontainer hother⟩

theorem sound : AllSound containers := fun number container hcontainer => by
  obtain ⟨other, -, htwins⟩ := htwins.exists_other hcontainer
  exact htwins.sound

end AllTwins

namespace Axis

variable {container other : C} {axis axis' : Axis P} {number : Nat}

/-- Axes of one kind, at any positions. -/
inductive Parallel : Axis P → Axis P → Prop
  | along {axis : Axis P} (haxis : axis.AlongElements) (cursor cursor' : Option Key) :
      Parallel (axis.moveTo cursor) (axis.moveTo cursor')
  | groups (offset offset' : Nat) : Parallel (groups offset) (groups offset')
  | terminals (offset offset' : Nat) : Parallel (terminals offset) (terminals offset')

omit [LawfulContainer C α P E] [Concealing C α P E T] in
theorem Parallel.detach (hparallel : axis.Parallel axis') : axis.detach.Parallel axis'.detach := by
  cases hparallel with
  | along haxis cursor cursor' =>
      rw [detach_eq, detach_eq, moveTo_moveTo, moveTo_moveTo]
      exact .along haxis none none
  | groups offset offset' => exact .groups offset offset'
  | terminals offset offset' => exact .terminals offset offset'

/-- Axes of one kind at positions behind which there is the same. -/
inductive Abreast (container other : C) : Axis P → Axis P → Prop
  | along {axis : Axis P} (haxis : axis.AlongElements) {cursor cursor' : Option Key}
      (habreast : (Container.graph container).Abreast (Container.graph other)
        (axis.scope C).isSome cursor cursor') :
      Abreast container other (axis.moveTo cursor) (axis.moveTo cursor')
  | groups {offset offset' : Nat}
      (hbetween : ∀ group, offset ≤ group ∧ group < offset' ∨ offset' ≤ group ∧ group < offset →
        group < (Container.graph container).groups.size ∧
          Container.shows container group = .ok false) :
      Abreast container other (groups offset) (groups offset')
  | terminals (offset : Nat) : Abreast container other (terminals offset) (terminals offset)

omit [LawfulContainer C α P E] [Concealing C α P E T] in
theorem Abreast.parallel (habreast : axis.Abreast container other axis') : axis.Parallel axis' := by
  cases habreast with
  | along haxis _ => exact .along haxis _ _
  | groups _ => exact .groups _ _
  | terminals offset => exact .terminals offset offset

omit [LawfulContainer C α P E] [Concealing C α P E T] in
theorem abreast_refl (container : C) (axis : Axis P) : axis.Abreast container container axis := by
  have halong (axis : Axis P) (haxis : axis.AlongElements) (cursor : Option Key) :
      (axis.moveTo cursor).Abreast container container (axis.moveTo cursor) :=
    .along haxis fun _ _ _ _ => Iff.rfl
  cases axis with
  | elements cursor => exact halong (elements none) trivial cursor
  | matching pattern cursor => exact halong (matching pattern none) trivial cursor
  | groups offset => exact .groups fun group hgroup => by omega
  | terminals offset => exact .terminals offset

omit [Concealing C α P E T] in
/-- What is onward from the beginning of an axis along elements is what lies within its scope. -/
theorem start_onward (hsound : LawfulContainer.Sound container) (haxis : axis.AlongElements)
    (cursor : Option Key) :
    ∃ first, (axis.moveTo cursor).start container = .ok (axis.moveTo first) ∧
      (axis.moveTo first).Ready container ∧
      ∀ key entry, (Container.graph container).stored? key = some entry →
        ((Container.graph container).Onward (axis.scope C).isSome first entry.place ↔
          ∀ group, axis.scope C = some group → entry.group = group) := by
  obtain ⟨first, keys, hstart, hahead⟩ :=
    start_ahead hsound (alongElements_moveTo haxis : (axis.moveTo cursor).AlongElements)
  rw [moveTo_moveTo] at hstart
  rw [scope_moveTo] at hahead
  refine ⟨first, hstart, .of_along (alongElements_moveTo haxis) ?_, fun key entry hentry => ?_⟩
  · rw [cursor_moveTo haxis]
    exact hahead.positioned
  · constructor
    · refine hahead.region_of_onward fun front place hregion hbehind group hscope => ?_
      exact (hbehind.2 (by simp [hscope])).trans (hregion group hscope)
    · intro hwithin
      refine hahead.onward (fun front place hconfined hfront hplace => ?_)
        (Graph.place?_of_stored hentry) hwithin
      obtain ⟨group, hscope⟩ := Option.isSome_iff_exists.mp hconfined
      exact (hfront group hscope).trans (hplace group hscope).symm

/-- Axes of one kind begin abreast in twin containers. -/
theorem Parallel.start (hparallel : axis.Parallel axis') (htwins : Twins container other) :
    ∃ begin begin', axis.start container = .ok begin ∧ axis'.start other = .ok begin' ∧
      begin.Ready container ∧ begin'.Ready other ∧ begin.Abreast container other begin' := by
  have hready {axis begin : Axis P} {container : C} (hsound : LawfulContainer.Sound container)
      (hstart : axis.start container = .ok begin) : begin.Ready container := by
    obtain ⟨begin', hstart', hready, -⟩ := axis.start_spec hsound
    cases hstart.symm.trans hstart'
    exact hready
  cases hparallel with
  | along haxis cursor cursor' =>
      obtain ⟨first, hstart, hready, honward⟩ := start_onward htwins.sound haxis cursor
      obtain ⟨first', hstart', hready', honward'⟩ := start_onward htwins.sound' haxis cursor'
      refine ⟨_, _, hstart, hstart', hready, hready', .along haxis fun key entry hentry hlive => ?_⟩
      obtain ⟨twin, htwin, heq⟩ := htwins.alike.exists_live hentry hlive
      have htwinOnward := honward' key twin htwin
      rw [heq] at htwinOnward
      exact (honward key entry hentry).trans htwinOnward.symm
  | groups offset offset' =>
      obtain ⟨first, hfirst⟩ := LawfulContainer.firstGroup_spec htwins.sound
      obtain ⟨later, hlater⟩ := LawfulContainer.firstGroup_spec htwins.sound'
      have hstart : (Axis.groups offset : Axis P).start container = .ok (.groups first) := by
        simp [Axis.start, hfirst]
      have hstart' : (Axis.groups offset' : Axis P).start other = .ok (.groups later) := by
        simp [Axis.start, hlater]
      refine ⟨_, _, hstart, hstart', hready htwins.sound hstart, hready htwins.sound' hstart',
        .groups fun group hbetween => ?_⟩
      rcases hbetween with ⟨hle, hlt⟩ | ⟨hle, hlt⟩
      · exact Concealing.passed htwins.sound htwins.sound' htwins.alike hfirst hlater hle hlt
      · have hpassed := Concealing.passed htwins.sound' htwins.sound htwins.alike.symm hlater
          hfirst hle hlt
        rwa [htwins.alike.size_eq, Concealing.shows_eq htwins.sound' htwins.sound
          htwins.alike.symm] at hpassed
  | terminals offset offset' =>
      have hstart (offset : Nat) (container : C) :
          (Axis.terminals offset : Axis P).start container = .ok (.terminals 1) := rfl
      exact ⟨_, _, hstart offset container, hstart offset' other,
        hready htwins.sound (hstart offset container),
        hready htwins.sound' (hstart offset' other), .terminals 1⟩

/-- A search of numbers may begin behind some that are not found. -/
theorem find?_range'_eq {holds : Nat → Bool} {count first later : Nat} (hle : first ≤ later)
    (hbetween : ∀ number, first ≤ number → number < later → number < count ∧ holds number = false) :
    (List.range' first (count - first)).find? holds =
      (List.range' later (count - later)).find? holds := by
  rcases Nat.eq_or_lt_of_le hle with rfl | hlt
  · rfl
  · have hcount : later ≤ count := by
      have hlast := (hbetween (later - 1) (by omega) (by omega)).1
      omega
    have hsplit : List.range' first (count - first) =
        List.range' first (later - first) ++ List.range' later (count - later) := by
      have happend := List.range'_append_1 (s := first) (m := later - first) (n := count - later)
      rwa [show first + (later - first) = later by omega,
        show later - first + (count - later) = count - first by omega, eq_comm] at happend
    have hnone : (List.range' first (later - first)).find? holds = none := by
      rw [List.find?_eq_none]
      intro number hnumber
      obtain ⟨hge, hlt⟩ := List.mem_range'_1.mp hnumber
      simp [(hbetween number hge (by omega)).2]
    rw [hsplit, List.find?_append, hnone, Option.none_or]

/-- Two axes find the same next and are abreast behind it, or neither finds anything, or both are
broken off by the same fault. -/
def FindsAbreast (container other : C) (number : Nat) (axis axis' : Axis P) : Prop :=
  (∃ fault, axis.advance container number = .ok (.error fault) ∧
    axis'.advance other number = .ok (.error fault)) ∨
  (axis.advance container number = .ok (.ok none) ∧
    axis'.advance other number = .ok (.ok none)) ∨
  ∃ found next next', axis.advance container number = .ok (.ok (some (found, next))) ∧
    axis'.advance other number = .ok (.ok (some (found, next'))) ∧
    next.Abreast container other next'

/-- Cursors that are abreast in two graphs come to the same element. -/
theorem findsAbreast_along (haxis : axis.AlongElements) {cursor cursor' : Option Key}
    (habreast : (Container.graph container).Abreast (Container.graph other)
      (axis.scope C).isSome cursor cursor')
    (htwins : Twins container other) (hready : (axis.moveTo cursor).Ready container)
    (hready' : (axis.moveTo cursor').Ready other) (number : Nat) :
    FindsAbreast container other number (axis.moveTo cursor) (axis.moveTo cursor') := by
  have hadvance := advance_first htwins.sound (alongElements_moveTo haxis) hready.positioned
    number
  have hadvance' := advance_first htwins.sound' (alongElements_moveTo haxis) hready'.positioned
    number
  rw [scope_moveTo, verdict_moveTo, cursor_moveTo haxis] at hadvance hadvance'
  rcases hadvance with ⟨hadvance, hnone⟩ | ⟨key, entry, decided, next, hadvance, hfound⟩ <;>
    rcases hadvance' with
      ⟨hadvance', hnone'⟩ | ⟨key', entry', decided', next', hadvance', hfound'⟩
  · exact .inr (.inl ⟨hadvance, hadvance'⟩)
  · exact absurd hfound' (habreast.not_found htwins.alike hnone)
  · exact absurd hfound
      ((habreast.symm htwins.alike).not_found htwins.alike.symm hnone')
  · obtain ⟨rfl, hsame, rfl, hnext⟩ := habreast.found htwins.alike hfound hfound'
    rw [moveTo_moveTo] at hadvance hadvance'
    rw [hsame] at hadvance'
    cases decided' with
    | error fault => exact .inl ⟨fault, hadvance, hadvance'⟩
    | ok slots => exact .inr (.inr ⟨_, _, _, hadvance, hadvance', .along haxis hnext⟩)

/-- Between the offsets no group is shown, so the first one shown from either on is the same. -/
theorem findsAbreast_groups {offset offset' : Nat}
    (hbetween : ∀ group, offset ≤ group ∧ group < offset' ∨ offset' ≤ group ∧ group < offset →
      group < (Container.graph container).groups.size ∧
        Container.shows container group = .ok false)
    (htwins : Twins container other) (number : Nat) :
    FindsAbreast container other number (.groups offset : Axis P) (.groups offset') := by
  let count := (Container.graph container).groups.size
  let shown (group : Nat) : Bool := (Container.shows container group).toOption.getD false
  have hshows (group : Nat) : Container.shows container group = .ok (shown group) := by
    obtain ⟨shows, hshows⟩ := LawfulContainer.shows_spec htwins.sound group
    simp [shown, hshows, Except.toOption]
  have hshows' (group : Nat) : Container.shows other group = .ok (shown group) :=
    (Concealing.shows_eq htwins.sound htwins.sound' htwins.alike group).symm.trans
      (hshows group)
  have hhidden (group : Nat)
      (hgroup : offset ≤ group ∧ group < offset' ∨ offset' ≤ group ∧ group < offset) :
      group < count ∧ shown group = false := by
    obtain ⟨hlt, hshown⟩ := hbetween group hgroup
    rw [hshows] at hshown
    exact ⟨hlt, Except.ok.inj hshown⟩
  have hsame : (List.range' offset (count - offset)).find? shown =
      (List.range' offset' (count - offset')).find? shown := by
    rcases Nat.le_total offset offset' with hle | hle
    · exact find?_range'_eq hle fun group hge hlt => hhidden group (.inl ⟨hge, hlt⟩)
    · exact (find?_range'_eq hle fun group hge hlt => hhidden group (.inr ⟨hge, hlt⟩)).symm
  have hfind := findM?_eq_ok (List.range' offset (count - offset)) fun group _ => hshows group
  have hfind' := findM?_eq_ok (List.range' offset' (count - offset'))
    fun group _ => hshows' group
  rw [← hsame] at hfind'
  have hcount : (Container.graph other).groups.size = count := htwins.alike.size_eq
  cases hgroup : (List.range' offset (count - offset)).find? shown with
  | none =>
      rw [hgroup] at hfind hfind'
      exact .inr (.inl ⟨by simp [Axis.advance, count, hfind],
        by simp [Axis.advance, hcount, hfind']⟩)
  | some group =>
      rw [hgroup] at hfind hfind'
      refine .inr (.inr ⟨{ group := some group }, .groups (group + 1), .groups (group + 1),
        by simp [Axis.advance, count, hfind], by simp [Axis.advance, hcount, hfind'],
        .groups fun number hbetween => ?_⟩)
      omega

theorem findsAbreast_terminals (offset : Nat) (htwins : Twins container other) (number : Nat) :
    FindsAbreast container other number (.terminals offset : Axis P) (.terminals offset) := by
  have hcount := Concealing.terminalCount_eq htwins.tables_eq
  by_cases hoffset : offset ≤ Container.terminalCount container
  · exact .inr (.inr ⟨{ symbol := some (.ofTerminal offset) }, .terminals (offset + 1),
      .terminals (offset + 1), by simp [Axis.advance, hoffset],
      by simp [Axis.advance, ← hcount, hoffset], .terminals (offset + 1)⟩)
  · exact .inr (.inl ⟨by simp [Axis.advance, hoffset],
      by simp [Axis.advance, ← hcount, hoffset]⟩)

theorem Abreast.advance (habreast : axis.Abreast container other axis')
    (htwins : Twins container other) (hready : axis.Ready container) (hready' : axis'.Ready other)
    (number : Nat) : FindsAbreast container other number axis axis' := by
  cases habreast with
  | along haxis habreast => exact findsAbreast_along haxis habreast htwins hready hready' number
  | groups hbetween => exact findsAbreast_groups hbetween htwins number
  | terminals offset => exact findsAbreast_terminals offset htwins number

theorem Abreast.symm (habreast : axis.Abreast container other axis')
    (htwins : Twins container other) : axis'.Abreast other container axis := by
  cases habreast with
  | along haxis habreast => exact .along haxis (habreast.symm htwins.alike)
  | terminals offset => exact .terminals offset
  | groups hbetween =>
      refine .groups fun group hgroup => ?_
      rw [htwins.alike.size_eq,
        ← Concealing.shows_eq htwins.sound htwins.sound' htwins.alike group]
      exact hbetween group hgroup.symm

include T in
/-- Axes stay abreast while nothing is added to their containers. -/
theorem Abreast.wanes {now now' : C} (habreast : axis.Abreast container other axis')
    (hsound : LawfulContainer.Sound container) (hnow : LawfulContainer.Sound now)
    (hwanes : (Container.graph container).Wanes (Container.graph now))
    (hstays : (Container.graph container).Stays (Container.graph now) axis.cursor)
    (hstays' : (Container.graph other).Stays (Container.graph now') axis'.cursor) :
    axis.Abreast now now' axis' := by
  cases habreast with
  | along haxis habreast =>
      rw [cursor_moveTo haxis] at hstays hstays'
      exact .along haxis (habreast.wanes hwanes hstays hstays')
  | terminals offset => exact .terminals offset
  | groups hbetween =>
      refine .groups fun group hgroup => ?_
      obtain ⟨hlt, hshows⟩ := hbetween group hgroup
      exact ⟨Nat.lt_of_lt_of_le hlt hwanes.size_le,
        Concealing.hidden hsound hnow hwanes hlt hshows⟩

end Axis

/-- Containers after changes that add no element. -/
def Waned (containers after : Array C) : Prop :=
  ∀ (number : Nat) (container : C), containers[number]? = some container →
    ∃ now, after[number]? = some now ∧ (Container.graph container).Wanes (Container.graph now)

/-- The element of a handle has stayed stored. -/
def Kept (containers after : Array C) (handle : Handle) : Prop :=
  ∃ entry now, entryAt containers handle = some entry ∧ entryAt after handle = some now ∧
    entry.Becomes now

namespace Search

variable {containers others : Array C} {search search' : Search P}

/-- Searches that differ in their positions only, and not in what is behind them. -/
inductive Alike (containers others : Array C) : Search P → Search P → Prop
  | unbound (progress : Progress) (current : Match) :
      Alike containers others ⟨none, progress, current⟩ ⟨none, progress, current⟩
  | resting {number : Nat} {axis axis' : Axis P} {progress : Progress} {current : Match}
      (hresting : progress ≠ .running) (hparallel : axis.Parallel axis') :
      Alike containers others ⟨some (number, axis), progress, current⟩
        ⟨some (number, axis'), progress, current⟩
  | running {number : Nat} {container other : C} {axis axis' : Axis P} {current : Match}
      (hcontainer : containers[number]? = some container) (hother : others[number]? = some other)
      (habreast : axis.Abreast container other axis') :
      Alike containers others ⟨some (number, axis), .running, current⟩
        ⟨some (number, axis'), .running, current⟩

omit [LawfulContainer C α P E] [Concealing C α P E T] in
theorem Alike.progress_eq (halike : search.Alike containers others search') :
    search.progress = search'.progress := by
  cases halike <;> rfl

omit [LawfulContainer C α P E] [Concealing C α P E T] in
theorem Alike.current_eq (halike : search.Alike containers others search') :
    search.current = search'.current := by
  cases halike <;> rfl

omit [LawfulContainer C α P E] [Concealing C α P E T] in
theorem Alike.isBound_eq (halike : search.Alike containers others search') :
    search.isBound = search'.isBound := by
  cases halike <;> rfl

omit [LawfulContainer C α P E] [Concealing C α P E T] in
theorem alike_refl (hfit : search.Fit containers.size) :
    search.Alike containers containers search := by
  obtain ⟨target, progress, current⟩ := search
  cases target with
  | none => exact .unbound progress current
  | some target =>
      obtain ⟨number, axis⟩ := target
      obtain ⟨container, hcontainer⟩ := hfit.exists_container rfl
      have habreast := axis.abreast_refl container
      by_cases hrunning : progress = .running
      · subst hrunning
        exact .running hcontainer hcontainer habreast
      · exact .resting hrunning habreast.parallel

namespace Alike

omit [LawfulContainer C α P E] [Concealing C α P E T] in
theorem exhaust (halike : search.Alike containers others search') :
    search.exhaust.Alike containers others search'.exhaust := by
  cases halike with
  | unbound progress current => exact .unbound .exhausted .empty
  | resting _ hparallel => exact .resting (by simp) hparallel.detach
  | running _ _ habreast => exact .resting (by simp) habreast.parallel.detach

omit [LawfulContainer C α P E] [Concealing C α P E T] in
theorem copy (halike : search.Alike containers others search') :
    search.copy.Alike containers others search'.copy := by
  cases halike with
  | unbound progress current => exact .unbound .unstarted .empty
  | resting _ hparallel => exact .resting (by simp) hparallel
  | running _ _ habreast => exact .resting (by simp) habreast.parallel

omit [LawfulContainer C α P E] [Concealing C α P E T] in
/-- Searches that have lost their positions are left with the same. -/
theorem lose (halike : search.Alike containers others search') :
    search.lose.Alike containers others search'.lose := by
  cases halike with
  | unbound progress current => exact .unbound progress current
  | resting hresting hparallel =>
      exact .resting hresting hparallel.detach
  | running hcontainer hother habreast =>
      refine .running hcontainer hother ?_
      cases habreast with
      | along haxis _ =>
          rw [Axis.detach_eq, Axis.detach_eq, Axis.moveTo_moveTo, Axis.moveTo_moveTo]
          exact .along haxis (Graph.abreast_none _ _ _)
      | groups hbetween => exact .groups hbetween
      | terminals offset => exact .terminals offset

variable (htwins : AllTwins containers others) (halike : search.Alike containers others search')

include htwins halike

theorem rewind (hfit : search.Fit containers.size) :
    ∃ next next', search.rewind containers = .ok next ∧ search'.rewind others = .ok next' ∧
      next.Alike containers others next' := by
  have hparallel {number : Nat} {axis axis' : Axis P} (progress : Progress) (current : Match)
      (hparallel : axis.Parallel axis') (hlt : number < containers.size) :
      ∃ next next', (⟨some (number, axis), progress, current⟩ : Search P).rewind containers =
          .ok next ∧
        (⟨some (number, axis'), progress, current⟩ : Search P).rewind others = .ok next' ∧
        next.Alike containers others next' := by
    have hcontainer := Array.getElem?_eq_getElem hlt
    obtain ⟨other, hother, htwin⟩ := htwins.exists_other hcontainer
    obtain ⟨start, start', hstart, hstart', -, -, habreast⟩ := hparallel.start htwin
    exact ⟨⟨some (number, start), .running, .empty⟩, ⟨some (number, start'), .running, .empty⟩,
      by simp [Search.rewind, containerAt_eq hcontainer, hstart, Match.empty],
      by simp [Search.rewind, containerAt_eq hother, hstart', Match.empty],
      .running hcontainer hother habreast⟩
  cases halike with
  | unbound progress current => exact ⟨_, _, rfl, rfl, .unbound .running .empty⟩
  | resting _ hparallel' => exact hparallel _ _ hparallel' (hfit.target_lt _ _ rfl)
  | running _ _ habreast => exact hparallel _ _ habreast.parallel (hfit.target_lt _ _ rfl)

theorem symm :
    search'.Alike others containers search := by
  have hparallel {axis axis' : Axis P} (hparallel : axis.Parallel axis') :
      axis'.Parallel axis := by
    cases hparallel with
    | along haxis cursor cursor' => exact .along haxis cursor' cursor
    | groups offset offset' => exact .groups offset' offset
    | terminals offset offset' => exact .terminals offset' offset
  cases halike with
  | unbound progress current => exact .unbound progress current
  | resting hresting hparallel' => exact .resting hresting (hparallel hparallel')
  | running hcontainer hother habreast =>
      exact .running hother hcontainer
        (habreast.symm (htwins.twins _ _ _ hcontainer hother))

/-- Searches stay alike while nothing is added and the elements at their positions stay stored. -/
theorem carry {after next : Array C} (hall : AllSound after) (hwaned : Waned containers after)
    (hwaned' : Waned others next) (hkept : ∀ handle ∈ search.holds, Kept containers after handle)
    (hkept' : ∀ handle ∈ search'.holds, Kept others next handle) :
    search.Alike after next search' := by
  have hstays {containers after : Array C} {number : Nat} {container now : C} {axis : Axis P}
      {progress : Progress} {current : Match} (hcontainer : containers[number]? = some container)
      (hnow : after[number]? = some now)
      (hkept : ∀ handle ∈ (⟨some (number, axis), progress, current⟩ : Search P).holds,
        Kept containers after handle) :
      (Container.graph container).Stays (Container.graph now) axis.cursor := by
    intro key hkey
    obtain ⟨entry, found, hentry, hfound, hbecomes⟩ :=
      hkept ⟨number, key⟩ (by simp [holds, hkey])
    exact ⟨entry, found, (entryAt_eq hcontainer key).symm.trans hentry,
      (entryAt_eq hnow key).symm.trans hfound, hbecomes⟩
  cases halike with
  | unbound progress current => exact .unbound progress current
  | resting hresting hparallel => exact .resting hresting hparallel
  | @running number container other axis axis' current hcontainer hother habreast =>
      obtain ⟨now, hnow, hwanes⟩ := hwaned number container hcontainer
      obtain ⟨now', hnow', -⟩ := hwaned' number other hother
      exact .running hnow hnow' (habreast.wanes (htwins.sound number container hcontainer)
        (hall number now hnow) hwanes (hstays hcontainer hnow hkept)
        (hstays hother hnow' hkept'))

end Alike

/-- Searches that differ in their positions only, each of which can go on. -/
structure Partners (containers others : Array C) (search search' : Search P) : Prop where
  alike : search.Alike containers others search'
  fit : search.Fit containers.size
  fit' : search'.Fit others.size
  held : search.Held containers
  held' : search'.Held others

namespace Partners

omit [LawfulContainer C α P E] [Concealing C α P E T] in
theorem copy (hpartners : search.Partners containers others search') :
    search.copy.Partners containers others search'.copy :=
  ⟨hpartners.alike.copy, fit_copy hpartners.fit, fit_copy hpartners.fit',
    held_copy hpartners.held, held_copy hpartners.held'⟩

variable (htwins : AllTwins containers others)
  (hpartners : search.Partners containers others search')

include htwins hpartners

theorem rewind :
    ∃ next next', search.rewind containers = .ok next ∧ search'.rewind others = .ok next' ∧
      next.Partners containers others next' ∧ next.progress = .running := by
  obtain ⟨next, next', hrewind, hrewind', halike⟩ := hpartners.alike.rewind htwins hpartners.fit
  obtain ⟨_, hspec, hfit, hheld, hrunning, -⟩ := rewind_spec htwins.sound hpartners.fit
  cases hrewind.symm.trans hspec
  obtain ⟨_, hspec', hfit', hheld', -, -⟩ := rewind_spec htwins.symm.sound hpartners.fit'
  cases hrewind'.symm.trans hspec'
  exact ⟨next, next', hrewind, hrewind', ⟨halike, hfit, hfit', hheld, hheld'⟩, hrunning⟩

/-- Running searches that are partners find the same. -/
theorem advance (hrunning : search.progress = .running) :
    ∃ found next next', search.advance containers = .ok (found, next) ∧
      search'.advance others = .ok (found, next') ∧ next.Alike containers others next' := by
  obtain ⟨halike, hfit, hfit', hheld, hheld'⟩ := hpartners
  have hexhaust := halike.exhaust
  have hlose := halike.lose
  cases halike with
  | unbound progress current => exact ⟨.ok false, _, _, rfl, rfl, hexhaust⟩
  | resting hresting _ => exact absurd hrunning hresting
  | @running number container other axis axis' current hcontainer hother habreast =>
      have hready := hfit.ready hheld rfl rfl hcontainer
      have hready' := hfit'.ready hheld' rfl rfl hother
      have htwin := htwins.twins number container other hcontainer hother
      rcases habreast.advance htwin hready hready' number with
        ⟨fault, hadvance, hadvance'⟩ | ⟨hadvance, hadvance'⟩ |
        ⟨found, next, next', hadvance, hadvance', hnext⟩
      · exact ⟨.error fault, _, _, by simp [Search.advance, containerAt_eq hcontainer, hadvance],
          by simp [Search.advance, containerAt_eq hother, hadvance'], hlose⟩
      · exact ⟨.ok false, _, _, by simp [Search.advance, containerAt_eq hcontainer, hadvance],
          by simp [Search.advance, containerAt_eq hother, hadvance'], hexhaust⟩
      · exact ⟨.ok true, ⟨some (number, next), .running, found⟩,
          ⟨some (number, next'), .running, found⟩,
          by simp [Search.advance, containerAt_eq hcontainer, hadvance],
          by simp [Search.advance, containerAt_eq hother, hadvance'],
          .running hcontainer hother hnext⟩

/-- Searches that are partners find the same next, and are partners behind it. -/
theorem matchNext :
    ∃ found next next', search.matchNext containers = .ok (found, next) ∧
      search'.matchNext others = .ok (found, next') ∧ next.Partners containers others next' := by
  have hfound : ∃ found next next', search.matchNext containers = .ok (found, next) ∧
      search'.matchNext others = .ok (found, next') ∧ next.Alike containers others next' := by
    have hprogress := hpartners.alike.progress_eq
    cases hcase : search.progress with
    | unstarted =>
        obtain ⟨begin, begin', hrewind, hrewind', hbegin, hrunning⟩ := hpartners.rewind htwins
        obtain ⟨found, next, next', hadvance, hadvance', hnext⟩ := hbegin.advance htwins hrunning
        exact ⟨found, next, next', by simp [Search.matchNext, hcase, hrewind, hadvance],
          by simp [Search.matchNext, ← hprogress, hcase, hrewind', hadvance'], hnext⟩
    | running =>
        obtain ⟨found, next, next', hadvance, hadvance', hnext⟩ := hpartners.advance htwins hcase
        exact ⟨found, next, next', by simp [Search.matchNext, hcase, hadvance],
          by simp [Search.matchNext, ← hprogress, hcase, hadvance'], hnext⟩
    | exhausted =>
        exact ⟨.ok false, search, search', by simp [Search.matchNext, hcase],
          by simp [Search.matchNext, ← hprogress, hcase], hpartners.alike⟩
  obtain ⟨found, next, next', hnext, hnext', halike⟩ := hfound
  obtain ⟨_, _, hspec, hstepped⟩ := matchNext_spec htwins.sound hpartners.fit hpartners.held
  cases hnext.symm.trans hspec
  obtain ⟨_, _, hspec', hstepped'⟩ :=
    matchNext_spec htwins.symm.sound hpartners.fit' hpartners.held'
  cases hnext'.symm.trans hspec'
  exact ⟨found, next, next', hnext, hnext', halike, hstepped.fit, hstepped'.fit, hstepped.held,
    hstepped'.held⟩

/-- Searches that are partners give the same rows if both go on equally often, or both until they
are exhausted or broken off. -/
theorem take {limit limit' : Nat} {rows rows' : Except Fault (List Match)} {last last' : Search P}
    (htake : search.take containers limit = .ok (rows, last))
    (htake' : search'.take others limit' = .ok (rows', last'))
    (hlimits : limit = limit' ∨ Ended rows last ∧ Ended rows' last') :
    rows = rows' ∧ last.Partners containers others last' := by
  induction limit generalizing limit' search search' rows rows' with
  | zero =>
      cases htake
      rcases hlimits with rfl | ⟨hended, -⟩
      · cases htake'
        exact ⟨rfl, hpartners⟩
      · have hend := hpartners.alike.progress_eq.symm.trans (hended [] rfl)
        cases htake'.symm.trans (take_exhausted hend limit')
        exact ⟨rfl, hpartners⟩
  | succ limit ih =>
      cases limit' with
      | zero =>
          cases htake'
          rcases hlimits with hlimits | ⟨-, hended⟩
          · cases hlimits
          · have hend := hpartners.alike.progress_eq.trans (hended [] rfl)
            cases htake.symm.trans (take_exhausted hend (limit + 1))
            exact ⟨rfl, hpartners⟩
      | succ limit' =>
          obtain ⟨found, next, next', hnext, hnext', hbehind⟩ := hpartners.matchNext htwins
          simp only [Search.take, hnext, hnext', ok_bind] at htake htake'
          cases found with
          | error fault =>
              cases htake
              cases htake'
              exact ⟨rfl, hbehind⟩
          | ok found =>
              cases found with
              | false =>
                  cases htake
                  cases htake'
                  exact ⟨rfl, hbehind⟩
              | true =>
                  obtain ⟨⟨rest, final⟩, hrest, heq⟩ := bind_eq_ok.mp htake
                  obtain ⟨⟨rest', final'⟩, hrest', heq'⟩ := bind_eq_ok.mp htake'
                  cases heq
                  cases heq'
                  obtain ⟨rfl, hlast⟩ := ih hbehind hrest hrest'
                    (hlimits.imp Nat.succ.inj fun hended => ⟨hended.1.of_map, hended.2.of_map⟩)
                  exact ⟨by rw [hbehind.alike.current_eq], hlast⟩

/-- Draining searches that are partners gives the same rows. -/
theorem takeUpTo (limit : Option Nat) :
    ∃ rows last last', search.takeUpTo containers limit = .ok (rows, last) ∧
      search'.takeUpTo others limit = .ok (rows, last') ∧
      last.Partners containers others last' := by
  obtain ⟨rows, last, -, htake, -⟩ := takeUpTo_spec htwins.sound hpartners.fit hpartners.held limit
  obtain ⟨rows', last', -, htake', -⟩ :=
    takeUpTo_spec htwins.symm.sound hpartners.fit' hpartners.held' limit
  have hsame : rows = rows' ∧ last.Partners containers others last' := by
    cases limit with
    | some limit => exact hpartners.take htwins htake htake' (.inl rfl)
    | none =>
        obtain ⟨limit, hlimit, hended⟩ := take_of_drain htake
        obtain ⟨limit', hlimit', hended'⟩ := take_of_drain htake'
        exact hpartners.take htwins hlimit hlimit' (.inr ⟨hended, hended'⟩)
  obtain ⟨rfl, hlast⟩ := hsame
  exact ⟨rows, last, last', htake, htake', hlast⟩

end Partners

end Search

end FormalLanguages
