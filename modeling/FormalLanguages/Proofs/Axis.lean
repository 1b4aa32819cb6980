/-
# A step along an axis finds the next one

An axis at a stored element, or at the end, goes on without a fault to the first one ahead that it
does not reject, and what it finds there is stored.  There is less left of it then, by a measure
that counts elements, groups or terminals, so an axis comes to its end.

An axis may end in a fault of matching instead.  That happens with a pattern only that names the
greatest slot, and such a pattern matches nothing.

The two axes that run along elements, with a pattern or without, differ only in what they accept and
in whether they are confined to a group.  Their lemmas are shared.
-/

import FormalLanguages.Proofs.Container

namespace FormalLanguages

variable {C α P E : Type} [Container C α P E] {containers : Array C} {container : C} {number : Nat}

/-- Every container is sound. -/
def AllSound [LawfulContainer C α P E] (containers : Array C) : Prop :=
  ∀ (number : Nat) (container : C), containers[number]? = some container →
    LawfulContainer.Sound container

/-- The entry of the element of a handle. -/
def entryAt (containers : Array C) (handle : Handle) : Option (Entry α) :=
  containers[handle.container]?.bind fun container =>
    (Container.graph container).stored? handle.key

/-- The element of a handle is stored. -/
def Readable (containers : Array C) (handle : Handle) : Prop :=
  ∃ entry, entryAt containers handle = some entry

theorem entryAt_eq (hcontainer : containers[number]? = some container) (key : Key) :
    entryAt containers ⟨number, key⟩ = (Container.graph container).stored? key := by
  simp [entryAt, hcontainer]

theorem entryAt_eq_some_iff {handle : Handle} {entry : Entry α} :
    entryAt containers handle = some entry ↔
      ∃ container, containers[handle.container]? = some container ∧
        (Container.graph container).stored? handle.key = some entry := by
  simp [entryAt, Option.bind_eq_some_iff]

theorem containerAt_eq (hcontainer : containers[number]? = some container) :
    containerAt containers number = .ok container := by
  simp [containerAt, hcontainer]

/-- The row of what was found in a graph: the key of an element, and slots. -/
def foundRow (graph : Graph α) (number : Nat) : Key × Slots → Match
  | (key, slots) =>
      { element := some ⟨number, key⟩, group := (graph.place? key).map Place.group, slots }

theorem foundRow_eq {graph : Graph α} {key : Key} {entry : Entry α}
    (hentry : graph.stored? key = some entry) (number : Nat) (slots : Slots) :
    foundRow graph number (key, slots) =
      { element := some ⟨number, key⟩, group := some entry.group, slots } := by
  rw [foundRow, Graph.place?_of_stored hentry]
  rfl

namespace Axis

variable {axis : Axis P} {cursor : Option Key}

/-- An axis that runs along elements. -/
def AlongElements : Axis P → Prop
  | elements _ => True
  | matching _ _ => True
  | groups _ => False
  | terminals _ => False

theorem alongElements_matching (pattern : Shared P) (cursor : Option Key) :
    (matching pattern cursor).AlongElements := trivial

variable (C) in
/-- The group to which an axis is confined. -/
def scope : Axis P → Option Nat
  | matching pattern _ => Container.scope C pattern.pattern
  | _ => none

variable (C) in
/-- What an axis asks of an element, and the slots that this fills. -/
def accepts : Axis P → Element α → Option Slots
  | elements _, _ => some []
  | matching pattern _, element => matchOf C pattern.pattern element
  | _, _ => none

variable (C) in
/-- What an axis comes to at an element, unless it rejects the element: the slots that this fills,
or a fault. -/
def verdict : Axis P → Element α → Option (Except Fault Slots)
  | elements _, _ => some (.ok [])
  | matching pattern _, element =>
      match slotsOf (C := C) pattern.pattern element with
      | .ok found => found.map .ok
      | .error fault => some (.error fault)
  | _, _ => none

variable (C) in
/-- The pattern of an axis names the greatest slot. -/
def Overruns : Axis P → Prop
  | matching pattern _ => Container.Overruns C pattern.pattern
  | _ => False

/-- The axis at another element. -/
def moveTo (cursor : Option Key) : Axis P → Axis P
  | elements _ => elements cursor
  | matching pattern _ => matching pattern cursor
  | groups offset => groups offset
  | terminals offset => terminals offset

theorem cursor_moveTo (haxis : axis.AlongElements) : (axis.moveTo cursor).cursor = cursor := by
  cases axis with
  | elements _ => rfl
  | matching _ _ => rfl
  | groups _ => cases haxis
  | terminals _ => cases haxis

theorem alongElements_moveTo (haxis : axis.AlongElements) :
    (axis.moveTo cursor).AlongElements := by
  cases axis <;> exact haxis

theorem scope_moveTo : (axis.moveTo cursor).scope C = axis.scope C := by
  cases axis <;> rfl

theorem accepts_moveTo : (axis.moveTo cursor).accepts C = axis.accepts C := by
  cases axis <;> rfl

theorem verdict_moveTo : (axis.moveTo cursor).verdict C = axis.verdict C := by
  cases axis <;> rfl

theorem overruns_moveTo : (axis.moveTo cursor).Overruns C ↔ axis.Overruns C := by
  cases axis <;> exact Iff.rfl

theorem moveTo_moveTo (axis : Axis P) (first second : Option Key) :
    (axis.moveTo first).moveTo second = axis.moveTo second := by
  cases axis <;> rfl

theorem moveTo_cursor (axis : Axis P) : axis.moveTo axis.cursor = axis := by
  cases axis <;> rfl

theorem detach_eq (axis : Axis P) : axis.detach = axis.moveTo none := by
  cases axis <;> rfl

/-- An axis accepts an element if it does not come to a fault there. -/
theorem accepts_eq_some_iff {element : Element α} {slots : Slots} :
    axis.accepts C element = some slots ↔ axis.verdict C element = some (.ok slots) := by
  cases axis with
  | elements _ => simp [accepts, verdict]
  | groups _ => simp [accepts, verdict]
  | terminals _ => simp [accepts, verdict]
  | matching pattern _ =>
      simp only [accepts, verdict, ← slotsOf_eq_some_iff]
      cases slotsOf (C := C) pattern.pattern element with
      | error fault => simp
      | ok found => cases found <;> simp

/-- The next match along elements, given the first element ahead that the axis does not reject. -/
def outcome (container : C) (number : Nat) (axis : Axis P) :
    Option (Key × Except Fault Slots) → Except Fault (Option (Match × Axis P))
  | none => .ok none
  | some (_, .error fault) => .error fault
  | some (key, .ok slots) =>
      let graph := Container.graph container
      .ok (some (foundRow graph number (key, slots),
        axis.moveTo (graph.following (axis.scope C).isSome key)))

theorem rowOf_eq {key : Key} {entry : Entry α}
    (hentry : (Container.graph container).stored? key = some entry) (slots : Slots) :
    rowOf container number key slots =
      .ok (foundRow (Container.graph container) number (key, slots)) := by
  simp [rowOf, Graph.element_of_stored hentry, foundRow_eq hentry]

/-- Going on along elements finds the first one ahead that the axis does not reject.  A pattern
decides each candidate on its own, although all of them share the slots. -/
theorem advance_of_trail {keys : List Key} (haxis : axis.AlongElements)
    (htrail : (Container.graph container).Trail (axis.scope C).isSome axis.cursor keys)
    (hlength : keys.length ≤ (Container.graph container).store.slots.size) :
    axis.advance container number = .ok (axis.outcome container number
      (keys.findSome? ((Container.graph container).visit (axis.verdict C)))) := by
  cases axis with
  | groups _ => cases haxis
  | terminals _ => cases haxis
  | elements cursor =>
      have hvisits : (Container.graph container).visit ((elements cursor : Axis P).verdict C) =
          Option.map (Prod.map id fun _ => .ok []) ∘
            (Container.graph container).visit fun _ => some () :=
        funext (Graph.visit_map (fun _ => some ()) fun _ => (.ok [] : Except Fault Slots))
      have hlive : (Container.graph container).nextLive false cursor = _ :=
        htrail.nextLive_eq hlength
      rw [hvisits, ← List.map_findSome?]
      rcases htrail.first_cases fun _ => some () with
        ⟨hfirst, -⟩ | ⟨key, value, next, -, hfirst, hvisit, hnext, -, -, -⟩
      · simp [advance, hlive, hfirst, outcome]
      · obtain ⟨-, entry, hentry, -⟩ := Graph.visit_eq_some_iff.mp hvisit
        have hfindNext : (Container.graph container).findNext key false = .ok next := hnext
        have hfollowing := Graph.following_eq hnext
        simp [advance, hlive, hfirst, hfindNext, rowOf_eq hentry, outcome, hfollowing, moveTo]
  | matching pattern cursor =>
      have hverdict : Graph.verdict (examine (C := C) pattern.pattern)
          (List.replicate (Container.slotCount C pattern.pattern) none) =
            (matching pattern cursor).verdict C := funext (verdict_examine pattern.pattern)
      have hseek : (Container.graph container).seek (Container.scope C pattern.pattern).isSome
          (examine (C := C) pattern.pattern) Slots.clear
          (List.replicate (Container.slotCount C pattern.pattern) none) cursor = _ :=
        htrail.seek_eq (cleans_examine pattern.pattern) hlength
      rw [hverdict] at hseek
      rcases htrail.first_cases ((matching pattern cursor).verdict C) with
        ⟨hfirst, -⟩ | ⟨key, value, next, -, hfirst, hvisit, hnext, -, -, -⟩
      · simp [advance, hseek, hfirst, outcome]
      · obtain ⟨-, entry, hentry, -⟩ := Graph.visit_eq_some_iff.mp hvisit
        cases value with
        | error fault => simp [advance, hseek, hfirst, outcome]
        | ok slots => simp [advance, hseek, hfirst, rowOf_eq hentry, outcome, moveTo, scope]

/-- How many matches are left of an axis at most. -/
def Left (container : C) (axis : Axis P) (bound : Nat) : Prop :=
  match axis with
  | elements cursor =>
      ∃ keys, (Container.graph container).Trail false cursor keys ∧ keys.length ≤ bound
  | matching pattern cursor =>
      ∃ keys, (Container.graph container).Trail (Container.scope C pattern.pattern).isSome cursor
        keys ∧ keys.length ≤ bound
  | groups offset => (Container.graph container).groups.size - offset ≤ bound
  | terminals offset => Container.terminalCount container + 1 - offset ≤ bound

theorem left_iff {bound : Nat} (haxis : axis.AlongElements) :
    axis.Left container bound ↔
      ∃ keys, (Container.graph container).Trail (axis.scope C).isSome axis.cursor keys ∧
        keys.length ≤ bound := by
  cases axis with
  | elements cursor => exact Iff.rfl
  | matching pattern cursor => exact Iff.rfl
  | groups offset => cases haxis
  | terminals offset => cases haxis

/-- A position that a search may be in: the element there is stored, and terminals are counted from
one. -/
structure Ready (container : C) (axis : Axis P) : Prop where
  positioned : (Container.graph container).Positioned axis.cursor
  terminals_pos : ∀ offset, axis = terminals offset → 1 ≤ offset

theorem Ready.of_along (haxis : axis.AlongElements)
    (hpositioned : (Container.graph container).Positioned axis.cursor) : axis.Ready container :=
  ⟨hpositioned, fun offset heq => by
    subst heq
    cases haxis⟩

/-- A match and the axis behind it: the element of the match is stored, if it has one, there is less
left of the axis, and its pattern does not name the greatest slot. -/
structure Advanced (containers : Array C) (container : C) (axis : Axis P) (found : Match)
    (after : Axis P) : Prop where
  readable : ∀ handle, found.element = some handle → Readable containers handle
  ready : after.Ready container
  left : ∀ bound, axis.Left container bound → ∃ less, less < bound ∧ after.Left container less
  fits : ¬after.Overruns C

/-- Looking for the next match of an axis has ended: there is none, or one was found, or a candidate
was met that the pattern overruns. -/
inductive Looks (containers : Array C) (container : C) (axis : Axis P) :
    Except Fault (Option (Match × Axis P)) → Prop
  | none : Looks containers container axis (.ok none)
  | found {found : Match} {after : Axis P}
      (hadvanced : Advanced containers container axis found after) :
      Looks containers container axis (.ok (some (found, after)))
  | broken {fault : Fault} (hoverruns : axis.Overruns C) :
      Looks containers container axis (.error fault)

theorem advance_terminals (offset : Nat) :
    ∃ outcome, (terminals offset : Axis P).advance container number = .ok outcome ∧
      Looks containers container (terminals offset) outcome := by
  by_cases hoffset : offset ≤ Container.terminalCount container
  · refine ⟨.ok (some ({ symbol := some (.ofTerminal offset) }, terminals (offset + 1))),
      by simp [advance, hoffset], .found ⟨?_, ⟨?_, ?_⟩, ?_, id⟩⟩
    · intro handle hhandle
      cases hhandle
    · intro key hkey
      cases hkey
    · intro offset' heq
      cases heq
      exact Nat.le_add_left 1 offset
    · intro bound hleft
      change Container.terminalCount container + 1 - offset ≤ bound at hleft
      exact ⟨Container.terminalCount container + 1 - (offset + 1), by omega, Nat.le_refl _⟩
  · exact ⟨.ok none, by simp [advance, hoffset], .none⟩

variable [LawfulContainer C α P E]

/-- An axis comes to a fault at an element only if its pattern names the greatest slot. -/
theorem overruns_of_verdict {element : Element α} {fault : Fault}
    (hverdict : axis.verdict C element = some (.error fault)) : axis.Overruns C := by
  cases axis with
  | elements _ => cases hverdict
  | groups _ => cases hverdict
  | terminals _ => cases hverdict
  | matching pattern _ =>
      by_contra hfits
      have hslots := slotsOf_eq (show ¬Container.Overruns C pattern.pattern from hfits) element
      rw [verdict, hslots] at hverdict
      cases hmatch : matchOf C pattern.pattern element <;> simp [hmatch] at hverdict

/-- An axis whose pattern names the greatest slot accepts nothing. -/
theorem accepts_of_overruns (hoverruns : axis.Overruns C) (element : Element α) :
    axis.accepts C element = none := by
  cases axis with
  | elements _ => cases hoverruns
  | groups _ => cases hoverruns
  | terminals _ => cases hoverruns
  | matching pattern _ => exact matchOf_of_overruns hoverruns element

theorem advanced_of_found {key : Key} {entry : Entry α} {slots : Slots} {next : Option Key}
    (haxis : axis.AlongElements) (hcontainer : containers[number]? = some container)
    (hfound : (Container.graph container).Found (axis.scope C).isSome (axis.accepts C) axis.cursor
      key entry slots next) :
    Advanced containers container axis
      { element := some ⟨number, key⟩, group := some entry.group, slots } (axis.moveTo next) where
  readable handle hhandle := by
    cases hhandle
    exact ⟨entry, (entryAt_eq hcontainer key).trans hfound.entry_eq⟩
  ready := .of_along (alongElements_moveTo haxis) (by
    rw [cursor_moveTo haxis]
    exact hfound.positioned)
  left bound hleft := by
    obtain ⟨trail, htrail, hlength⟩ := (left_iff haxis).mp hleft
    obtain ⟨rest, hrest, hshorter⟩ := hfound.shorter trail htrail
    refine ⟨rest.length, by omega, (left_iff (alongElements_moveTo haxis)).mpr ⟨rest, ?_, ?_⟩⟩
    · rwa [scope_moveTo, cursor_moveTo haxis]
    · exact Nat.le_refl _
  fits hoverruns := by
    have haccepted := hfound.accepted
    rw [accepts_of_overruns (overruns_moveTo.mp hoverruns)] at haccepted
    cases haccepted

/-- Any other axis along elements decides each of them without a fault. -/
theorem verdict_eq (hfits : ¬axis.Overruns C) (element : Element α) :
    axis.verdict C element = (axis.accepts C element).map .ok := by
  cases axis with
  | elements _ => rfl
  | groups _ => rfl
  | terminals _ => rfl
  | matching pattern _ =>
      have hslots := slotsOf_eq (show ¬Container.Overruns C pattern.pattern from hfits) element
      rw [verdict, hslots, accepts]

theorem first_verdict (hfits : ¬axis.Overruns C) (graph : Graph α) (keys : List Key) :
    keys.findSome? (graph.visit (axis.verdict C)) =
      (keys.findSome? (graph.visit (axis.accepts C))).map (Prod.map id .ok) := by
  rw [List.map_findSome?, funext (verdict_eq hfits)]
  exact congrArg (keys.findSome? ·) (funext (Graph.visit_map _ _))

/-- What an axis does not reject is within its scope. -/
theorem group_of_verdict (hsound : LawfulContainer.Sound container) {key : Key} {entry : Entry α}
    (hentry : (Container.graph container).stored? key = some entry)
    (hverdict : axis.verdict C entry.toElement ≠ none) {group : Nat}
    (hscope : axis.scope C = some group) : entry.group = group := by
  cases axis with
  | elements _ => cases hscope
  | groups _ => cases hscope
  | terminals _ => cases hscope
  | matching pattern _ =>
      refine LawfulContainer.scope_spec hsound hentry (fun hslots => hverdict ?_) hscope
      rw [verdict, hslots]
      rfl

section Sound

variable (hsound : LawfulContainer.Sound container)

include hsound

/-- Going on along elements comes to the first element onward from the position that is live and not
rejected, and is broken off there if matching ends in a fault. -/
theorem advance_first (haxis : axis.AlongElements)
    (hpositioned : (Container.graph container).Positioned axis.cursor) (number : Nat) :
    (axis.advance container number = .ok (.ok none) ∧
      ∀ key entry, (Container.graph container).stored? key = some entry → entry.deleted = false →
        (Container.graph container).Onward (axis.scope C).isSome axis.cursor entry.place →
          axis.verdict C entry.toElement = none) ∨
    ∃ key entry decided next,
      axis.advance container number = .ok (decided.map fun slots =>
        some ({ element := some ⟨number, key⟩, group := some entry.group, slots },
          axis.moveTo next)) ∧
      (Container.graph container).Found (axis.scope C).isSome (axis.verdict C) axis.cursor key
        entry decided next := by
  have hgraph := LawfulContainer.graph_sound hsound
  obtain ⟨keys, hahead⟩ := Graph.ahead_onward hgraph (axis.scope C).isSome hpositioned
  rw [advance_of_trail haxis hahead.trail hahead.length_le]
  rcases hahead.first_found (axis.verdict C) hgraph with
    ⟨hfirst, hnone⟩ | ⟨key, entry, decided, next, hfirst, hfound⟩
  · exact .inl ⟨by rw [hfirst, outcome], hnone⟩
  · refine .inr ⟨key, entry, decided, next, ?_, hfound⟩
    rw [hfirst]
    cases decided with
    | error fault => rfl
    | ok slots =>
        rw [outcome, foundRow_eq hfound.entry_eq, Graph.following_eq hfound.next_eq]
        rfl

/-- The next match of an axis along elements is the first element onward from its position that is
live and accepted, unless its pattern is broken off at one in front of it. -/
theorem advance_along (haxis : axis.AlongElements)
    (hpositioned : (Container.graph container).Positioned axis.cursor) (number : Nat) :
    (axis.advance container number = .ok (.ok none) ∧
      ∀ key entry, (Container.graph container).stored? key = some entry → entry.deleted = false →
        (Container.graph container).Onward (axis.scope C).isSome axis.cursor entry.place →
          axis.accepts C entry.toElement = none) ∨
    (∃ key entry slots next,
      axis.advance container number =
        .ok (.ok (some ({ element := some ⟨number, key⟩, group := some entry.group, slots },
          axis.moveTo next))) ∧
      (Container.graph container).Found (axis.scope C).isSome (axis.accepts C) axis.cursor key
        entry slots next) ∨
    ∃ fault, axis.advance container number = .ok (.error fault) ∧ axis.Overruns C := by
  have hless (element : Element α) (haccepted : axis.accepts C element ≠ none) :
      axis.verdict C element ≠ none := by
    obtain ⟨slots, hslots⟩ := Option.ne_none_iff_exists'.mp haccepted
    rw [accepts_eq_some_iff.mp hslots]
    exact Option.some_ne_none _
  rcases advance_first hsound haxis hpositioned number with
    ⟨hadvance, hnone⟩ | ⟨key, entry, decided, next, hadvance, hfound⟩
  · refine .inl ⟨hadvance, fun key entry hentry hlive honward => ?_⟩
    by_contra haccepted
    exact hless _ haccepted (hnone key entry hentry hlive honward)
  · cases decided with
    | error fault => exact .inr (.inr ⟨fault, hadvance, overruns_of_verdict hfound.accepted⟩)
    | ok slots => exact .inr (.inl ⟨key, entry, slots, next, hadvance,
        hfound.restrict (accepts_eq_some_iff.mpr hfound.accepted) hless⟩)

/-- From the beginning of an axis along elements a trail meets the elements within its scope. -/
theorem start_ahead (haxis : axis.AlongElements) :
    ∃ cursor keys, axis.start container = .ok (axis.moveTo cursor) ∧
      (Container.graph container).Ahead (axis.scope C).isSome
        (fun place => ∀ group, axis.scope C = some group → place.group = group) cursor keys := by
  have hgraph := LawfulContainer.graph_sound hsound
  obtain ⟨first, keys, hfirst, hahead⟩ := Graph.ahead_firstElement hgraph
  have hunconfined (axis : Axis P) (hscope : axis.scope C = none) :
      (Container.graph container).Ahead (axis.scope C).isSome
        (fun place => ∀ group, axis.scope C = some group → place.group = group) first keys := by
    simpa [hscope] using hahead
  cases axis with
  | groups offset => cases haxis
  | terminals offset => cases haxis
  | elements cursor =>
      exact ⟨first, keys, by simp [start, hfirst, moveTo], hunconfined _ rfl⟩
  | matching pattern cursor =>
      cases hscope : Container.scope C pattern.pattern with
      | none => exact ⟨first, keys, by simp [start, hscope, hfirst, moveTo], hunconfined _ hscope⟩
      | some group =>
          obtain ⟨keys, hahead⟩ := Graph.ahead_head? hgraph group
          refine ⟨(Container.graph container).head? group, keys,
            by simp [start, hscope, moveTo], ?_⟩
          simpa [scope, hscope, eq_comm] using hahead

/-- The beginning of an axis along elements is in front of every element within its scope. -/
theorem start_along (haxis : axis.AlongElements) :
    ∃ cursor, axis.start container = .ok (axis.moveTo cursor) ∧
      (Container.graph container).Positioned cursor ∧
      ∀ key entry, (Container.graph container).stored? key = some entry →
        (∀ group, axis.scope C = some group → entry.group = group) →
          (Container.graph container).Onward (axis.scope C).isSome cursor entry.place := by
  obtain ⟨cursor, keys, hstart, hahead⟩ := start_ahead hsound haxis
  refine ⟨cursor, hstart, hahead.positioned, fun key entry hentry hwithin => ?_⟩
  refine hahead.onward (fun first second hconfined hfirst hsecond => ?_)
    (Graph.place?_of_stored hentry) hwithin
  obtain ⟨group, hscope⟩ := Option.isSome_iff_exists.mp hconfined
  exact (hfirst group hscope).trans (hsecond group hscope).symm

/-- An axis can always be set to its beginning. -/
theorem start_spec (axis : Axis P) :
    ∃ after, axis.start container = .ok after ∧ after.Ready container ∧
      (after.Overruns C → axis.Overruns C) := by
  by_cases haxis : axis.AlongElements
  · obtain ⟨cursor, hstart, hpositioned, -⟩ := start_along hsound haxis
    refine ⟨_, hstart, .of_along (alongElements_moveTo haxis) ?_, overruns_moveTo.mp⟩
    rwa [cursor_moveTo haxis]
  · cases axis with
    | elements cursor => exact absurd trivial haxis
    | matching pattern cursor => exact absurd trivial haxis
    | groups offset =>
        obtain ⟨group, hgroup⟩ := LawfulContainer.firstGroup_spec hsound
        refine ⟨groups group, by simp [start, hgroup], ⟨?_, ?_⟩, id⟩
        · intro key hkey
          cases hkey
        · intro offset heq
          cases heq
    | terminals offset =>
        refine ⟨terminals 1, rfl, ⟨?_, ?_⟩, id⟩
        · intro key hkey
          cases hkey
        · intro offset heq
          cases heq
          exact Nat.le_refl 1

/-- No more matches are left of an axis than its container has slots, groups and terminals. -/
theorem Ready.left (hready : axis.Ready container) :
    axis.Left container ((Container.graph container).store.slots.size +
      (Container.graph container).groups.size + Container.terminalCount container) := by
  by_cases haxis : axis.AlongElements
  · obtain ⟨keys, hahead⟩ := Graph.ahead_onward (LawfulContainer.graph_sound hsound)
      (axis.scope C).isSome hready.positioned
    have hlength := hahead.length_le
    exact (left_iff haxis).mpr ⟨keys, hahead.trail, by omega⟩
  · cases axis with
    | elements cursor => exact absurd trivial haxis
    | matching pattern cursor => exact absurd trivial haxis
    | groups offset =>
        change (Container.graph container).groups.size - offset ≤ _
        omega
    | terminals offset =>
        have hpos := hready.terminals_pos offset rfl
        change Container.terminalCount container + 1 - offset ≤ _
        omega

theorem advance_groups (offset : Nat) :
    ∃ outcome, (groups offset : Axis P).advance container number = .ok outcome ∧
      Looks containers container (groups offset) outcome := by
  let count := (Container.graph container).groups.size
  let shown (group : Nat) : Bool := (Container.shows container group).toOption.getD false
  have hshows (group : Nat) : Container.shows container group = .ok (shown group) := by
    obtain ⟨shows, hshows⟩ := LawfulContainer.shows_spec hsound group
    simp [shown, hshows, Except.toOption]
  have hfind := findM?_eq_ok (List.range' offset (count - offset)) fun group _ => hshows group
  cases hgroup : (List.range' offset (count - offset)).find? shown with
  | none =>
      rw [hgroup] at hfind
      exact ⟨.ok none, by simp [advance, count, hfind], .none⟩
  | some group =>
      rw [hgroup] at hfind
      have hrange := List.mem_range'_1.mp (List.mem_of_find?_eq_some hgroup)
      refine ⟨.ok (some ({ group := some group }, groups (group + 1))),
        by simp [advance, count, hfind], .found ⟨?_, ⟨?_, ?_⟩, ?_, id⟩⟩
      · intro handle hhandle
        cases hhandle
      · intro key hkey
        cases hkey
      · intro offset heq
        cases heq
      · intro bound hleft
        change count - offset ≤ bound at hleft
        exact ⟨count - (group + 1), by omega, Nat.le_refl _⟩

/-- An axis that is asked for its next match ends without a fault of its container. -/
theorem advance_spec (hready : axis.Ready container)
    (hcontainer : containers[number]? = some container) :
    ∃ outcome, axis.advance container number = .ok outcome ∧
      Looks containers container axis outcome := by
  by_cases haxis : axis.AlongElements
  · rcases advance_along hsound haxis hready.positioned number with
      ⟨hadvance, -⟩ | ⟨key, entry, slots, next, hadvance, hfound⟩ | ⟨fault, hadvance, hoverruns⟩
    · exact ⟨_, hadvance, .none⟩
    · exact ⟨_, hadvance, .found (advanced_of_found haxis hcontainer hfound)⟩
    · exact ⟨_, hadvance, .broken hoverruns⟩
  · cases axis with
    | elements cursor => exact absurd trivial haxis
    | matching pattern cursor => exact absurd trivial haxis
    | groups offset => exact advance_groups hsound offset
    | terminals offset => exact advance_terminals offset

end Sound

end Axis

end FormalLanguages
