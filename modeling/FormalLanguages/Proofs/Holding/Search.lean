/-
# A search goes on handle by handle as it does without

A search that goes on with handles finds what it finds without them.  What it has taken and given
back on the way is the difference between what it refers to afterwards and before: arriving at an
element puts the handle in hand into the match, whose own is dropped, and a search that finds
nothing has nothing left.
-/

import FormalLanguages.Proofs.Holding
import FormalLanguages.Proofs.Search.Plain

namespace FormalLanguages

variable {C α P E : Type} [Container C α P E]

/-- A search refers to the element of its match and to that at its position. -/
theorem Search.holds_eq (search : Search P) :
    search.holds = search.current.element.toList ++ search.position.toList := by
  obtain ⟨target, progress, current⟩ := search
  cases target with
  | none => rfl
  | some target =>
      obtain ⟨number, axis⟩ := target
      cases hcursor : axis.cursor <;> simp [holds, position, hcursor]

namespace Holding

/-- Writing what was found into a match of the same kind gives what was found. -/
theorem note_eq {axis after : Axis P} {container : C} {number : Nat} {found current : Match}
    (hapart : ¬axis.AlongElements)
    (hadvance : axis.advance container number = .ok (.ok (some (found, after))))
    (hcurrent : axis.Finds current) : note after found current = found := by
  cases axis with
  | elements cursor => exact absurd trivial hapart
  | matching pattern cursor => exact absurd trivial hapart
  | groups offset =>
      obtain ⟨shown, -, hshown⟩ := bind_eq_ok.mp hadvance
      cases shown with
      | none => cases hshown
      | some group =>
          cases hshown
          rw [show current = { group := current.group } from hcurrent]
          rfl
  | terminals offset =>
      simp only [Axis.advance] at hadvance
      split at hadvance
      · cases hadvance
        rw [show current = { symbol := current.symbol } from hcurrent]
        rfl
      · cases hadvance

/-- A search for groups or terminals goes on as its axis does. -/
theorem advance_apart {search : Search P} {workspace : Workspace C P} {number : Nat} {axis : Axis P}
    {container : C} {outcome : Except Fault (Option (Match × Axis P))}
    (htarget : search.target = some (number, axis)) (hapart : ¬axis.AlongElements)
    (hcontainer : workspace.container number = .ok container)
    (houtcome : axis.advance container number = .ok outcome) :
    advance search workspace =
      .ok ((count search number outcome).1, (count search number outcome).2, workspace) := by
  cases axis with
  | elements cursor => exact absurd trivial hapart
  | matching pattern cursor => exact absurd trivial hapart
  | groups offset => simp only [advance, htarget, hcontainer, houtcome, ok_bind, pure_eq_ok]
  | terminals offset => simp only [advance, htarget, hcontainer, houtcome, ok_bind, pure_eq_ok]

/-- A step that finds something ends there. -/
theorem goOn_found {search next : Search P} {workspace after : Workspace C P}
    (hadvance : advance search workspace = .ok (.ok true, next, after)) :
    goOn search workspace = .ok (.ok true, next, after) := by
  rw [goOn, hadvance]
  rfl

/-- A step that is broken off ends there. -/
theorem goOn_broken {search next : Search P} {fault : Fault} {workspace after : Workspace C P}
    (hadvance : advance search workspace = .ok (.error fault, next, after)) :
    goOn search workspace = .ok (.error fault, next, after) := by
  rw [goOn, hadvance]
  rfl

variable [LawfulContainer C α P E] {origin containers : Array C} (workspace : Workspace C P)
  {handles : List Handle}

section Searches

variable {search next : Search P}

/-- The beginning of what a search refers to is dropped with its match. -/
theorem releaseCurrent_spec
    (hmidway : Midway origin (search.holds ++ handles) workspace.containers) :
    ∃ containers, releaseAny search.current.element workspace =
        .ok { workspace with containers } ∧
      Midway origin (search.position.toList ++ handles) containers := by
  rw [Search.holds_eq, List.append_assoc] at hmidway
  exact releaseAny_spec workspace hmidway

/-- A search that is dropped gives back what it refers to. -/
theorem releaseSearch_spec (before : Option (Search P))
    (hmidway : Midway origin (before.toList.flatMap Search.holds ++ handles)
      workspace.containers) :
    ∃ containers, releaseSearch before workspace = .ok { workspace with containers } ∧
      Midway origin handles containers := by
  cases before with
  | none => exact ⟨workspace.containers, rfl, hmidway⟩
  | some search =>
      rw [Option.toList_some, List.flatMap_singleton, Search.holds_eq, List.append_assoc] at hmidway
      obtain ⟨middle, hposition, hmiddle⟩ :=
        releaseAny_spec workspace (hmidway.perm (List.perm_append_comm_assoc _ _ _))
      obtain ⟨containers, hcurrent, hcontainers⟩ :=
        releaseAny_spec { workspace with containers := middle } hmiddle
      exact ⟨containers,
        by simp only [releaseSearch, Option.bind_some, hposition, ok_bind, hcurrent], hcontainers⟩

/-- With its position taken, a search refers to its last match only. -/
theorem Midway.lost
    (hmidway : Midway origin (search.current.element.toList ++ handles) containers) :
    Midway origin (search.lose.holds ++ handles) containers := by
  rwa [Search.holds_lose]

/-- A step that finds nothing leaves nothing that the search refers to. -/
theorem goOn_nothing {middle : Array C}
    (hadvance : advance search workspace =
      .ok (.ok false, next, { workspace with containers := middle }))
    (hmidway : Midway origin (next.holds ++ handles) middle) :
    ∃ containers, goOn search workspace =
        .ok (.ok false, next.exhaust, { workspace with containers }) ∧
      Midway origin (next.exhaust.holds ++ handles) containers := by
  obtain ⟨first, hcurrent, hfirst⟩ :=
    releaseCurrent_spec { workspace with containers := middle } hmidway
  obtain ⟨containers, hposition, hcontainers⟩ :=
    releaseAny_spec { workspace with containers := first } hfirst
  rw [Search.holds_exhaust]
  exact ⟨containers, by simp only [goOn, hadvance, ok_bind, hcurrent, hposition, pure_eq_ok],
    hcontainers⟩

end Searches

variable [Uncounting C α P E] {container : C} {number : Nat}

/-- What a search does handle by handle comes to what it does without handles.  The references taken
and given back on the way are the difference between what it refers to afterwards and before. -/
def Settles {β : Type} (origin : Array C) (handles : List Handle) (workspace : Workspace C P)
    (attempt : Except Fault (β × Search P × Workspace C P))
    (outcome : Except Fault (β × Search P)) : Prop :=
  ∃ result next containers, attempt = .ok (result, next, { workspace with containers }) ∧
    outcome = .ok (result, next) ∧ Midway origin (next.holds ++ handles) containers

section Stepping

variable {search : Search P}

/-- A search that is rewound drops its match, and exchanges the handle at its position for one at
the beginning. -/
theorem rewind_spec (hall : AllSound origin) (hfit : search.Fit origin.size)
    (hmidway : Midway origin (search.holds ++ handles) workspace.containers) :
    ∃ rewound containers, rewind search workspace = .ok (rewound, { workspace with containers }) ∧
      search.rewind origin = .ok rewound ∧
      Midway origin (rewound.holds ++ handles) containers := by
  obtain ⟨rewound, hrewind, -, hheld, -⟩ := Search.rewind_spec hall hfit
  obtain ⟨first, hcurrent, hfirst⟩ := releaseCurrent_spec workspace hmidway
  cases htarget : search.target with
  | none =>
      have hrewound := hrewind
      simp only [Search.rewind, htarget, pure_eq_ok] at hrewound
      cases hrewound
      refine ⟨_, first, ?_, hrewind, ?_⟩
      · simp only [rewind, hcurrent, ok_bind, htarget, pure_eq_ok]
      · have hnone : search.position = none := by simp [Search.position, htarget]
        rw [hnone] at hfirst
        exact hfirst
  | some target =>
      obtain ⟨number, axis⟩ := target
      obtain ⟨container, hcontainer⟩ := hfit.exists_container htarget
      have hrewound := hrewind
      simp only [Search.rewind, htarget, containerAt_eq hcontainer, ok_bind, bind_eq_ok] at hrewound
      obtain ⟨started, hstart, heq⟩ := hrewound
      cases heq
      let rewound : Search P := { target := some (number, started), progress := .running }
      obtain ⟨now, hnow, hreads⟩ := hfirst.reads hcontainer
      have hreadable (handle : Handle) (hhandle : rewound.position = some handle) :
          Readable origin handle := by
        apply hheld
        rw [Search.holds_eq, hhandle]
        exact List.mem_append_right _ List.mem_cons_self
      obtain ⟨second, hhold, hsecond⟩ :=
        holdAny_spec { workspace with containers := first } hfirst hreadable
      obtain ⟨containers, hrelease, hcontainers⟩ :=
        releaseAny_spec { workspace with containers := second }
          (hsecond.perm (List.perm_append_comm_assoc _ _ _))
      have hholds : rewound.holds = rewound.position.toList := rewound.holds_eq
      refine ⟨rewound, containers, ?_, hrewind, hholds ▸ hcontainers⟩
      simp only [rewind, hcurrent, ok_bind, htarget, Workspace.container, hnow, hreads.start_eq,
        hstart]
      simp only [rewound] at hhold
      simp only [hhold, ok_bind, hrelease, pure_eq_ok]
      rfl

/-- Arriving at an element puts the handle in hand into the match. -/
theorem arrive_spec {key : Key} {entry : Entry α} (axis : Axis P) (slots : Slots)
    (hcontainer : origin[number]? = some container)
    (hentry : (Container.graph container).stored? key = some entry)
    (hreadable : ∀ cursor, axis.cursor = some cursor → Readable origin ⟨number, cursor⟩)
    (hmidway : Midway origin (⟨number, key⟩ :: (search.current.element.toList ++ handles))
      workspace.containers) :
    ∃ containers, arrive search number axis key slots workspace =
        .ok ({ search with
            target := some (number, axis)
            current := { search.current with
              element := some ⟨number, key⟩, group := some entry.group, slots } },
          { workspace with containers }) ∧
      Midway origin (Handle.mk number key :: (axis.cursor.toList.map (Handle.mk number) ++ handles))
        containers := by
  have hcursor (handle : Handle) (hhandle : axis.cursor.map (Handle.mk number) = some handle) :
      Readable origin handle := by
    obtain ⟨cursor, hcursor, rfl⟩ := Option.map_eq_some_iff.mp hhandle
    exact hreadable cursor hcursor
  obtain ⟨first, hhold, hfirst⟩ := holdAny_spec workspace hmidway hcursor
  obtain ⟨now, hnow, hreads⟩ := hfirst.reads hcontainer
  have hperm : ((axis.cursor.map (Handle.mk number)).toList ++
      Handle.mk number key :: (search.current.element.toList ++ handles)).Perm
      (search.current.element.toList ++
        Handle.mk number key :: (axis.cursor.toList.map (Handle.mk number) ++ handles)) := by
    rw [Option.toList_map]
    refine List.perm_middle.trans (.trans ?_ List.perm_middle.symm)
    exact (List.perm_append_comm_assoc _ _ _).cons _
  obtain ⟨containers, hrelease, hcontainers⟩ :=
    releaseAny_spec { workspace with containers := first } (hfirst.perm hperm)
  exact ⟨containers, by simp only [arrive, hhold, Workspace.container, hnow, hreads.rowOf_eq,
    Axis.rowOf_eq hentry, foundRow_eq hentry, hrelease, ok_bind, pure_eq_ok], hcontainers⟩

end Stepping

section GoingOn

variable {search : Search P} {cursor : Option Key} (hall : AllSound origin)
  (hfit : search.Fit origin.size) (hheld : search.Held origin)
  (hrunning : search.progress = .running) (hplain : search.Plain)
  (hmidway : Midway origin (search.holds ++ handles) workspace.containers)

include hall hfit hheld hrunning hmidway

/-- A search takes the handle at its position, and steps over tombstones with it. -/
theorem nextLive_of_target {axis : Axis P} (htarget : search.target = some (number, axis))
    (hcontainer : origin[number]? = some container) (confined : Bool) :
    ∃ found containers, nextLive number confined axis.cursor workspace =
        .ok (found, { workspace with containers }) ∧
      (Container.graph container).nextLive confined axis.cursor = .ok found ∧
      (Container.graph container).Positioned found ∧
      Midway origin (found.toList.map (Handle.mk number) ++
        (search.current.element.toList ++ handles)) containers := by
  obtain ⟨keys, hahead⟩ := Graph.ahead_onward
    (LawfulContainer.graph_sound (hall number container hcontainer)) confined
    (hfit.ready hheld hrunning htarget hcontainer).positioned
  have hposition : search.position.toList = axis.cursor.toList.map (Handle.mk number) := by
    simp [Search.position, htarget, Option.toList_map]
  rw [Search.holds_eq, List.append_assoc, hposition] at hmidway
  exact nextLive_spec workspace hcontainer ⟨keys, hahead.trail, hahead.length_le⟩
    (hmidway.perm (List.perm_append_comm_assoc _ _ _))

include hplain

/-- A search for elements goes on with the handle at its position. -/
theorem goOn_elements (htarget : search.target = some (number, .elements cursor)) :
    Settles origin handles workspace (goOn search workspace) (search.advance origin) := by
  obtain ⟨container, hcontainer⟩ := hfit.exists_container htarget
  obtain ⟨found, middle, hlive, hpure, hpositioned, hmiddle⟩ :=
    nextLive_of_target workspace hall hfit hheld hrunning hmidway htarget hcontainer false
  obtain ⟨answer, after, hadvance, hstepped⟩ := Search.advance_spec hall hfit hheld hrunning
  simp only [Axis.cursor] at hlive hpure
  cases found with
  | none =>
      have hnothing : advance search workspace =
          .ok (.ok false, search.lose, { workspace with containers := middle }) := by
        simp only [advance, htarget, hlive, ok_bind, pure_eq_ok]
      obtain ⟨containers, hgo, hcontainers⟩ := goOn_nothing workspace hnothing (Midway.lost hmiddle)
      refine ⟨_, _, containers, hgo, ?_, hcontainers⟩
      simp only [Search.advance, htarget, containerAt_eq hcontainer, Axis.advance, hpure, ok_bind,
        pure_eq_ok, Search.exhaust_lose]
  | some key =>
      obtain ⟨entry, hentry⟩ := hpositioned key rfl
      obtain ⟨now, hnow, hreads⟩ := hmiddle.reads hcontainer
      cases hnext : (Container.graph container).findNext key false with
      | error fault =>
          simp [Search.advance, htarget, containerAt_eq hcontainer, Axis.advance, hpure, hnext]
            at hadvance
      | ok next =>
          simp only [Search.advance, htarget, containerAt_eq hcontainer, Axis.advance, hpure, hnext,
            Axis.rowOf_eq hentry, foundRow_eq hentry, ok_bind, pure_eq_ok] at hadvance ⊢
          cases hadvance
          obtain ⟨containers, harrive, hcontainers⟩ :=
            arrive_spec { workspace with containers := middle } (.elements next) [] hcontainer
              hentry (hstepped.held.of_cursor rfl) hmiddle
          obtain ⟨hsymbol, hslots⟩ := hplain number _ htarget
          refine ⟨.ok true, _, containers, goOn_found ?_, rfl, hcontainers⟩
          simp only [advance, htarget, hlive, Workspace.container, hnow, hreads.findNext_eq, hnext,
            harrive, ok_bind, pure_eq_ok, hsymbol, hslots]

/-- A search for elements that match a pattern goes on with the handle at its position. -/
theorem goOn_matching {pattern : Shared P}
    (htarget : search.target = some (number, .matching pattern cursor)) :
    Settles origin handles workspace (goOn search workspace) (search.advance origin) := by
  obtain ⟨container, hcontainer⟩ := hfit.exists_container htarget
  obtain ⟨live, first, hlive, hpure, hpositioned, hfirst⟩ :=
    nextLive_of_target workspace hall hfit hheld hrunning hmidway htarget hcontainer
      (Container.scope C pattern.pattern).isSome
  obtain ⟨answer, after, hadvance, hstepped⟩ := Search.advance_spec hall hfit hheld hrunning
  simp only [Axis.cursor] at hlive hpure
  simp only [Search.advance, htarget, containerAt_eq hcontainer, Axis.advance, Graph.seek, hpure,
    ok_bind, pure_eq_ok] at hadvance ⊢
  cases live with
  | none =>
      have hnothing : advance search workspace =
          .ok (.ok false, search.lose, { workspace with containers := first }) := by
        simp only [advance, htarget, hlive, ok_bind, pure_eq_ok]
      obtain ⟨containers, hgo, hcontainers⟩ := goOn_nothing workspace hnothing (Midway.lost hfirst)
      exact ⟨_, _, containers, hgo, by rw [Search.exhaust_lose]; rfl, hcontainers⟩
  | some key =>
      obtain ⟨now, hnow, hreads⟩ := hfirst.reads hcontainer
      obtain ⟨keys, hahead⟩ := Graph.ahead_onward
        (LawfulContainer.graph_sound (hall number container hcontainer))
        (Container.scope C pattern.pattern).isSome hpositioned
      obtain ⟨stop, second, hscan, hpureScan, hsecond⟩ :=
        scanWithin_spec { workspace with containers := first } hcontainer pattern.pattern
          (List.replicate (Container.slotCount C pattern.pattern) none) hahead.trail
          hahead.length_le hfirst
      simp only [hpureScan, ok_bind] at hadvance ⊢
      cases stop with
      | none =>
          have hnothing : advance search workspace =
              .ok (.ok false, search.lose, { workspace with containers := second }) := by
            simp only [advance, htarget, hlive, Workspace.container, hnow, hreads.slots_eq, hscan,
              ok_bind, pure_eq_ok]
          obtain ⟨containers, hgo, hcontainers⟩ :=
            goOn_nothing workspace hnothing (Midway.lost hsecond)
          exact ⟨_, _, containers, hgo, by rw [Search.exhaust_lose]; rfl, hcontainers⟩
      | some stop =>
          obtain ⟨key, next, outcome⟩ := stop
          cases outcome with
          | error fault =>
              refine ⟨.error fault, _, second, goOn_broken ?_, rfl, Midway.lost hsecond⟩
              simp only [advance, htarget, hlive, Workspace.container, hnow, hreads.slots_eq, hscan,
                ok_bind, pure_eq_ok]
          | ok slots =>
              cases hrow : Axis.rowOf container number key slots with
              | error fault => simp [hrow] at hadvance
              | ok row =>
                  obtain ⟨entry, hentry⟩ := Axis.stored_of_rowOf hrow
                  simp only [Axis.rowOf_eq hentry, foundRow_eq hentry, ok_bind] at hadvance ⊢
                  cases hadvance
                  obtain ⟨containers, harrive, hcontainers⟩ :=
                    arrive_spec { workspace with containers := second } (.matching pattern next)
                      slots hcontainer hentry (hstepped.held.of_cursor rfl) hsecond
                  have hsymbol : search.current.symbol = none := hplain number _ htarget
                  refine ⟨.ok true, _, containers, goOn_found ?_, rfl, hcontainers⟩
                  simp only [advance, htarget, hlive, Workspace.container, hnow, hreads.slots_eq,
                    hscan, harrive, ok_bind, pure_eq_ok, hsymbol]

/-- A search for groups or terminals goes on without handles. -/
theorem goOn_apart {axis : Axis P} (htarget : search.target = some (number, axis))
    (hapart : ¬axis.AlongElements) :
    Settles origin handles workspace (goOn search workspace) (search.advance origin) := by
  obtain ⟨container, hcontainer⟩ := hfit.exists_container htarget
  obtain ⟨now, hnow, hreads⟩ := hmidway.reads hcontainer
  obtain ⟨outcome, houtcome, hlooks⟩ := Axis.advance_spec (hall number container hcontainer)
    (hfit.ready hheld hrunning htarget hcontainer) hcontainer
  have hnone : search.holds = [] := by
    rw [Search.holds, Axis.element_of_finds hapart (hplain number axis htarget), htarget]
    simp [Axis.cursor_of_apart hapart]
  have hadvance := advance_apart htarget hapart hnow ((hreads.advance_eq _ _).trans houtcome)
  cases hlooks with
  | broken hoverruns => exact absurd hoverruns (Axis.not_overruns_of_apart hapart)
  | none =>
      rw [count] at hadvance
      obtain ⟨containers, hgo, hcontainers⟩ := goOn_nothing workspace hadvance hmidway
      refine ⟨_, _, containers, hgo, ?_, hcontainers⟩
      simp only [Search.advance, htarget, containerAt_eq hcontainer, houtcome, ok_bind, pure_eq_ok]
  | @found found after hadvanced =>
      have hnote := note_eq hapart houtcome (hplain number axis htarget)
      rw [count, hnote] at hadvance
      have hafter := Axis.apart_of_advance hapart houtcome
      rw [hnone] at hmidway
      refine ⟨.ok true, _, workspace.containers, goOn_found hadvance, ?_, ?_⟩
      · simp only [Search.advance, htarget, containerAt_eq hcontainer, houtcome, ok_bind,
          pure_eq_ok]
      · rw [Search.holds, Axis.element_of_finds hafter (Axis.finds_of_advance houtcome)]
        simpa [Axis.cursor_of_apart hafter] using hmidway

/-- Going on to the next match handle by handle comes to going on. -/
theorem goOn_spec :
    Settles origin handles workspace (goOn search workspace) (search.advance origin) := by
  cases htarget : search.target with
  | none =>
      have hnothing : advance search workspace = .ok (.ok false, search, workspace) := by
        simp only [advance, htarget, pure_eq_ok]
      obtain ⟨containers, hgo, hcontainers⟩ := goOn_nothing workspace hnothing hmidway
      refine ⟨_, _, containers, hgo, ?_, hcontainers⟩
      simp only [Search.advance, htarget, pure_eq_ok]
  | some target =>
      obtain ⟨number, axis⟩ := target
      cases axis with
      | elements cursor =>
          exact goOn_elements workspace hall hfit hheld hrunning hplain hmidway htarget
      | matching pattern cursor =>
          exact goOn_matching workspace hall hfit hheld hrunning hplain hmidway htarget
      | groups offset =>
          exact goOn_apart workspace hall hfit hheld hrunning hplain hmidway htarget id
      | terminals offset =>
          exact goOn_apart workspace hall hfit hheld hrunning hplain hmidway htarget id

end GoingOn

section Taking

variable {search : Search P} (hall : AllSound origin)

include hall

/-- Going on with a search in any state comes to going on without handles. -/
theorem matchNext_spec (hfit : search.Fit origin.size) (hheld : search.Held origin)
    (hplain : search.Plain)
    (hmidway : Midway origin (search.holds ++ handles) workspace.containers) :
    Settles origin handles workspace (matchNext search workspace) (search.matchNext origin) := by
  cases hprogress : search.progress with
  | unstarted =>
      obtain ⟨rewound, middle, hrewind, hpure, hmiddle⟩ := rewind_spec workspace hall hfit hmidway
      obtain ⟨_, hrewound, hfitNow, hheldNow, hrunning, -⟩ := Search.rewind_spec hall hfit
      cases hpure.symm.trans hrewound
      obtain ⟨found, next, containers, hgo, hadvance, hcontainers⟩ :=
        goOn_spec { workspace with containers := middle } hall hfitNow hheldNow hrunning
          (Search.hereditary_plain.rewound hpure) hmiddle
      refine ⟨found, next, containers, ?_, ?_, hcontainers⟩
      · simp only [matchNext, hprogress, hrewind, ok_bind, hgo]
      · simp only [Search.matchNext, hprogress, hpure, ok_bind, hadvance]
  | running =>
      obtain ⟨found, next, containers, hgo, hadvance, hcontainers⟩ :=
        goOn_spec workspace hall hfit hheld hprogress hplain hmidway
      refine ⟨found, next, containers, ?_, ?_, hcontainers⟩
      · simp only [matchNext, hprogress, hgo]
      · simp only [Search.matchNext, hprogress, hadvance]
  | exhausted =>
      refine ⟨.ok false, search, workspace.containers, ?_, ?_, hmidway⟩
      · simp only [matchNext, hprogress, pure_eq_ok]
      · simp only [Search.matchNext, hprogress, pure_eq_ok]

/-- Going on a number of times, with every match copied and dropped, comes to going on without
handles. -/
theorem take_spec (hfit : search.Fit origin.size) (hheld : search.Held origin)
    (hplain : search.Plain) (limit : Nat)
    (hmidway : Midway origin (search.holds ++ handles) workspace.containers) :
    Settles origin handles workspace (take limit search workspace) (search.take origin limit) := by
  induction limit generalizing search workspace with
  | zero => exact ⟨.ok [], search, workspace.containers, rfl, rfl, hmidway⟩
  | succ limit ih =>
      obtain ⟨found, after, first, hnext, hpure, hfirst⟩ :=
        matchNext_spec workspace hall hfit hheld hplain hmidway
      obtain ⟨_, _, hpure', hstepped⟩ := Search.matchNext_spec hall hfit hheld
      cases hpure.symm.trans hpure'
      cases found with
      | error fault =>
          refine ⟨.error fault, after, first, ?_, ?_, hfirst⟩
          · simp only [take, next, hnext, ok_bind, pure_eq_ok]
          · simp only [Search.take, hpure, ok_bind, pure_eq_ok]
      | ok found =>
          cases found with
          | false =>
              refine ⟨.ok [], after, first, ?_, ?_, hfirst⟩
              · simp only [take, next, hnext, ok_bind, pure_eq_ok]
              · simp only [Search.take, hpure, ok_bind, pure_eq_ok]
          | true =>
              have hreadable (handle : Handle) (hhandle : after.current.element = some handle) :
                  Readable origin handle :=
                hstepped.held handle (List.mem_append_left _ (Option.mem_toList.mpr hhandle))
              obtain ⟨second, hhold, hsecond⟩ :=
                holdAny_spec { workspace with containers := first } hfirst hreadable
              obtain ⟨third, hrelease, hthird⟩ :=
                releaseAny_spec { workspace with containers := second } hsecond
              obtain ⟨rows, last, containers, htake, hrest, hcontainers⟩ :=
                ih { workspace with containers := third } hstepped.fit hstepped.held
                  (Search.hereditary_plain.matchNext hplain hpure) hthird
              refine ⟨rows.map (after.current :: ·), last, containers, ?_, ?_, hcontainers⟩
              · simp only [take, next, hnext, hhold, hrelease, htake, ok_bind, pure_eq_ok]
              · simp only [Search.take, hpure, hrest, ok_bind, pure_eq_ok]

theorem takeUpTo_spec (hfit : search.Fit origin.size) (hheld : search.Held origin)
    (hplain : search.Plain) (limit : Option Nat)
    (hmidway : Midway origin (search.holds ++ handles) workspace.containers) :
    Settles origin handles workspace (takeUpTo limit search workspace)
      (search.takeUpTo origin limit) := by
  cases limit with
  | some limit => exact take_spec workspace hall hfit hheld hplain limit hmidway
  | none =>
      obtain ⟨bound, hbound, -⟩ := Search.rowBound_spec hall hfit hheld
      have hnow : search.rowBound workspace.containers = .ok bound := by
        rw [← Search.rowBound_uncounted, hmidway.counted.uncounted_eq, Search.rowBound_uncounted,
          hbound]
      obtain ⟨rows, last, containers, htake, hpure, hcontainers⟩ :=
        take_spec workspace hall hfit hheld hplain (bound + 1) hmidway
      obtain ⟨_, _, _, hdrain, -⟩ := Search.takeUpTo_spec hall hfit hheld none
      have hfinal := hdrain
      simp only [Search.takeUpTo, Search.drain, hbound, hpure, ok_bind] at hfinal
      refine ⟨rows, last, containers, ?_, ?_, hcontainers⟩
      · cases rows with
        | error fault => simp only [takeUpTo, hnow, htake, ok_bind, pure_eq_ok]
        | ok rows =>
            simp only [takeUpTo, hnow, htake, ok_bind]
            split
            · rfl
            · next hrunning => simp [hrunning] at hfinal
      · cases rows with
        | error fault =>
            simp only [Search.takeUpTo, Search.drain, hbound, hpure, ok_bind, pure_eq_ok]
        | ok rows =>
            simp only [Search.takeUpTo, Search.drain, hbound, hpure, ok_bind]
            split
            · rfl
            · next hrunning => simp [hrunning] at hfinal

end Taking

end Holding

end FormalLanguages
