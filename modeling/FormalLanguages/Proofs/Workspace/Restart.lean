/-
# A search starts anew, or stays where it ended

Whatever has happened to a search, and wherever its container has been changed since, once it is
rewound it produces what a new search of its kind produces.  So does a copy of it, and a search of
nothing that becomes a copy of it.  Rewinding a search once more changes nothing at all, not even
reference counts.

A search that has reported that there is no further match keeps saying so.  It is at no element and
has no match, so nothing that is done to its container can bring it back: neither what is added
behind it nor what is removed or reclaimed.
-/

import FormalLanguages.Proofs.Search.Restart
import FormalLanguages.Proofs.Workspace.Enumeration
import FormalLanguages.Proofs.Workspace.Heredity
import FormalLanguages.Proofs.Workspace.History
import FormalLanguages.Proofs.Workspace.Writing

namespace FormalLanguages

/-- The commands that let the search under a name start anew as a copy, if it is one of nothing. -/
def Command.Reassigns {P E : Type} (name : String) (search : Search P) : Command P E → Prop
  | .assignSearch target _ => target = name ∧ search.isBound = false
  | _ => False

namespace Workspace

variable {C α P E : Type} [Container C α P E] {workspace after : Workspace C P}
  {command : Command P E} {reply : Reply} {name keep : String} {search fresh rewound : Search P}
  {request : Option (Nat × Query P)}

/-- What a new search has to be asked to enumerate what a search enumerates. -/
inductive Asks (workspace : Workspace C P) (search : Search P) : Option (Nat × Query P) → Prop
  | nothing (htarget : search.target = none) : Asks workspace search none
  | elements {number : Nat} {cursor : Option Key}
      (htarget : search.target = some (number, .elements cursor)) :
      Asks workspace search (some (number, .elements))
  | groups {number offset : Nat} (htarget : search.target = some (number, .groups offset)) :
      Asks workspace search (some (number, .groups))
  | terminals {number offset : Nat}
      (htarget : search.target = some (number, .terminals offset)) :
      Asks workspace search (some (number, .terminals))
  | matching {number : Nat} {shared : Shared P} {cursor : Option Key}
      (htarget : search.target = some (number, .matching shared cursor)) :
      Asks workspace search (some (number, .matching shared.pattern))
  | sharing {number : Nat} {shared kept : Shared P} {cursor : Option Key} {pattern : String}
      (htarget : search.target = some (number, .matching shared cursor))
      (hkept : workspace.patterns.get? pattern = some kept)
      (hpattern : kept.pattern = shared.pattern) :
      Asks workspace search (some (number, .sharing pattern))

/-- A search can always be asked for again. -/
theorem exists_asks (workspace : Workspace C P) (search : Search P) :
    ∃ request, workspace.Asks search request := by
  cases htarget : search.target with
  | none => exact ⟨_, .nothing htarget⟩
  | some target =>
      obtain ⟨number, axis⟩ := target
      cases axis with
      | elements cursor => exact ⟨_, .elements htarget⟩
      | groups offset => exact ⟨_, .groups htarget⟩
      | terminals offset => exact ⟨_, .terminals htarget⟩
      | matching shared cursor => exact ⟨_, .matching htarget⟩

/-- What a new search enumerates that is asked for in a container. -/
theorem Asks.axisOf_eq {number : Nat} {query : Query P}
    (hasks : workspace.Asks search (some (number, query))) :
    ∃ before axis serial, search.target = some (number, before) ∧
      workspace.axisOf query = .ok (axis, { workspace with serial }) ∧ axis.cursor = none ∧
      axis.origin = before.origin := by
  cases hasks with
  | elements htarget => exact ⟨_, _, _, htarget, rfl, rfl, rfl⟩
  | groups htarget => exact ⟨_, _, _, htarget, rfl, rfl, rfl⟩
  | terminals htarget => exact ⟨_, _, _, htarget, rfl, rfl, rfl⟩
  | matching htarget => exact ⟨_, _, _, htarget, rfl, rfl, rfl⟩
  | @sharing _ shared kept _ _ htarget hkept hpattern =>
      refine ⟨_, .matching kept none, workspace.serial, htarget, ?_, rfl, ?_⟩
      · simp only [Workspace.axisOf, register_of_get? hkept, ok_bind, pure_eq_ok]
      · simp only [Axis.origin, hpattern]

/-- Rows of which a search is drained from its beginning, or the fault in which it is broken off:
after it was rewound, as a copy under a new name, as a copy that a search of nothing has become, and
as a new search that is asked for in the same way. -/
structure Drains (workspace : Workspace C P) (name : String) (search : Search P)
    (limit : Option Nat) (rows : Except Fault (List Match)) : Prop where
  rewound : (workspace.run ([.rewind name, .drain name limit] : List (Command P E))).1 =
    [.ok .done, .ok (.orBroken .rows rows)]
  copied : ∀ keep,
    (workspace.run ([.copySearch name keep, .drain keep limit] : List (Command P E))).1 =
      [.ok .done, .ok (.orBroken .rows rows)]
  assigned : ∀ target before, workspace.searches.get? target = some before →
    before.isBound = false →
    (workspace.run ([.assignSearch target name, .drain target limit] : List (Command P E))).1 =
      [.ok (.flag search.isBound), .ok (.orBroken .rows rows)]
  asked : ∀ request keep, workspace.Asks search request →
    (workspace.run ([.search request keep, .drain keep limit] : List (Command P E))).1 =
      [.ok .done, .ok (.orBroken .rows rows)]

variable [LawfulContainer C α P E]

/-- Taking a reference and giving it back leaves everything as it is. -/
theorem exchange_self [Uncounting C α P E] {handle : Handle}
    (hreadable : Readable workspace.containers handle) :
    workspace.exchange [handle] [handle] = .ok workspace := by
  obtain ⟨entry, hentry⟩ := hreadable
  obtain ⟨container, hcontainer, hstored⟩ := entryAt_eq_some_iff.mp hentry
  obtain ⟨cell, hcell, -⟩ := Graph.stored?_eq_some_iff.mp hstored
  let graph := Container.graph container
  let held := { cell with references := cell.references + 1 }
  let now := Container.setGraph container { graph with store := graph.store.put handle.key held }
  have hhold : workspace.adjust Store.hold handle =
      .ok (workspace.setContainer handle.container now) := by
    simp only [adjust, Workspace.container, containerAt_eq hcontainer, Store.hold_eq hcell,
      ok_bind, pure_eq_ok, now, held, graph]
  have hnow : (workspace.setContainer handle.container now).containers[handle.container]? =
      some now := getElem?_replaced_self hcontainer now
  have hback : Container.setGraph now graph = container := by
    simp only [now, Uncounting.setGraph_setGraph, graph, Uncounting.setGraph_graph]
  have hrelease : (workspace.setContainer handle.container now).adjust Store.release handle =
      .ok workspace := by
    have hgraph : Container.graph now = { graph with store := graph.store.put handle.key held } :=
      LawfulContainer.graph_setGraph container _
    have hrelease : (graph.store.put handle.key held).release handle.key = .ok graph.store :=
      Store.release_held hcell
    simp only [adjust, Workspace.container, containerAt_eq hnow, ok_bind, pure_eq_ok, hgraph,
      hrelease]
    show Except.ok ((workspace.setContainer handle.container now).setContainer handle.container
      (Container.setGraph now graph)) = .ok workspace
    rw [hback, setContainer, setContainer, Array.setIfInBounds_setIfInBounds]
    exact congrArg Except.ok (setContainer_self hcontainer)
  simp only [exchange, List.foldlM_cons, List.foldlM_nil, hhold, hrelease, ok_bind, pure_eq_ok]

namespace Sound

variable (hsound : workspace.Sound)

include hsound

/-- A new search that is asked for like another one has not been started, and has its origin. -/
theorem asked_step (hsearch : workspace.searches.get? name = some search)
    (hasks : workspace.Asks search request) (keep : String) :
    ∃ fresh after, workspace.step (.search request keep : Command P E) = .ok (.done, after) ∧
      after.searches.get? keep = some fresh ∧ fresh.progress = .unstarted ∧
      fresh.origin = search.origin := by
  cases request with
  | none =>
      cases hasks with
      | nothing htarget =>
          obtain ⟨after, hstep, hexchanged⟩ := hsound.search_unbound_step (E := E) keep
          refine ⟨.unbound, after, hstep, get?_of_exchanged hexchanged, rfl, ?_⟩
          rw [Search.origin, Search.origin, htarget]
          rfl
  | some asked =>
      obtain ⟨number, query⟩ := asked
      obtain ⟨before, axis, serial, htarget, haxis, hcursor, horigin⟩ := hasks.axisOf_eq
      obtain ⟨container, hcontainer⟩ := (hsound.fit name search hsearch).exists_container htarget
      obtain ⟨after, hstep, hexchanged⟩ :=
        hsound.search_step (E := E) hcontainer haxis hcursor keep
      refine ⟨_, after, hstep, get?_of_exchanged hexchanged, rfl, ?_⟩
      simp only [Search.origin, Search.along, htarget, Option.map_some, horigin]

variable [Uncounting C α P E]

/-- A search that was just written is drained of the rows that are left of it. -/
theorem drain_after {limit : Option Nat} {rows : Except Fault (List Match)}
    (halters : ¬command.Alters)
    (hstep : workspace.step command = .ok (reply, after))
    (hsearch : after.searches.get? name = some search)
    (hrows : Prod.fst <$> search.takeUpTo workspace.containers limit = .ok rows) :
    (workspace.run [command, .drain name limit]).1 = [.ok reply, .ok (.orBroken .rows rows)] := by
  have hkeeps := hsound.step_keeps command
  rw [hstep] at hkeeps
  have hcontainers := (step_counted hsound.containers halters hstep).uncounted_eq
  obtain ⟨found, last, drained, htake, hdrain, -⟩ := hkeeps.1.drain_step (E := E) hsearch limit
  rw [← Search.takeUpTo_uncounted, ← hcontainers, Search.takeUpTo_uncounted, htake] at hrows
  obtain rfl : found = rows := Except.ok.inj hrows
  simp only [Workspace.run, hstep, hdrain]

/-- Rewound, copied, assigned or asked for anew, a search is drained of the same rows.  It is broken
off only if its pattern names the greatest slot. -/
theorem drains (hsearch : workspace.searches.get? name = some search) (limit : Option Nat) :
    ∃ rows, workspace.Drains (E := E) name search limit rows ∧
      ∀ fault, rows = .error fault → search.Overruns C := by
  obtain ⟨rewound, after, hrewind, hstep, hexchanged⟩ := hsound.rewind_step (E := E) hsearch
  obtain ⟨rewound', hrewind', hfit, hheld, -, -, hoverruns⟩ :=
    Search.rewind_spec hsound.containers (hsound.fit name search hsearch)
  cases hrewind.symm.trans hrewind'
  obtain ⟨rows, last, bound, htake, htaken⟩ :=
    Search.takeUpTo_spec hsound.containers hfit hheld limit
  have hrows : Prod.fst <$> rewound.takeUpTo workspace.containers limit = .ok rows := by
    rw [htake]
    rfl
  have hfresh {fresh : Search P} (hunstarted : fresh.progress = .unstarted)
      (horigin : fresh.origin = search.origin) :
      Prod.fst <$> fresh.takeUpTo workspace.containers limit = .ok rows :=
    (Search.rows_of_origin hunstarted horigin hrewind limit).trans hrows
  refine ⟨rows, ⟨?_, ?_, ?_, ?_⟩, fun fault hfault => hoverruns (htaken.broken fault hfault)⟩
  · exact hsound.drain_after id hstep (get?_of_exchanged hexchanged) hrows
  · intro keep
    obtain ⟨copied, hcopy, hkept⟩ := hsound.copySearch_step (E := E) hsearch keep
    exact hsound.drain_after id hcopy (get?_of_exchanged hkept) (hfresh rfl rfl)
  · intro target before htarget hbound
    obtain ⟨assigned, hassign, hkept⟩ := hsound.assignSearch_step (E := E) htarget hsearch hbound
    exact hsound.drain_after id hassign (get?_of_exchanged hkept) (hfresh rfl rfl)
  · intro request keep hasks
    obtain ⟨fresh, asked, hask, hkept, hunstarted, horigin⟩ :=
      hsound.asked_step (E := E) hsearch hasks keep
    exact hsound.drain_after id hask hkept (hfresh hunstarted horigin)

/-- Rewinding a search once more leaves everything as it is, reference counts included. -/
theorem rewind_twice (hsearch : workspace.searches.get? name = some search) :
    (workspace.run ([.rewind name, .rewind name] : List (Command P E))).2 =
      (workspace.run ([.rewind name] : List (Command P E))).2 := by
  obtain ⟨rewound, after, hrewind, hstep, hexchanged⟩ := hsound.rewind_step (E := E) hsearch
  have hafter := get?_of_exchanged hexchanged
  have hcontainers := (step_counted hsound.containers id hstep).uncounted_eq
  have hagain : rewound.rewind after.containers = .ok rewound := by
    rw [← Search.rewind_uncounted, hcontainers, Search.rewind_uncounted]
    exact Search.rewind_rewind hrewind
  have hkeep : after.keepSearch name rewound = .ok after := by
    have hsame : after.exchange rewound.holds rewound.holds = .ok after := by
      rcases Search.holds_rewound hrewind with hnone | ⟨handle, hone⟩
      · rw [hnone]
        rfl
      · rw [hone]
        apply exchange_self
        apply hexchanged.sound.held hafter
        rw [hone]
        exact List.mem_singleton_self handle
    have hinsert : after.searches.insert name rewound = after.searches := by
      rw [hexchanged.searches_eq, Table.insert_insert]
    simp only [Workspace.keepSearch, hafter, Option.toList_some, List.flatMap_singleton, hsame,
      ok_bind, pure_eq_ok, hinsert]
  have hsecond : after.step (.rewind name : Command P E) = .ok (.done, after) := by
    simp only [Workspace.step, register_of_get? hafter, hagain, hkeep, ok_bind, pure_eq_ok]
  simp only [Workspace.run, hstep, hsecond]

end Sound

/-- The search under a name is at its end: it has no match and refers to no element, and whatever it
is asked for, there is nothing. -/
structure Spent (workspace : Workspace C P) (name : String) : Prop where
  search : ∃ search, workspace.searches.get? name = some search ∧ search.current = .empty ∧
    search.holds = []
  matchNext : Prod.fst <$> workspace.step (.matchNext name : Command P E) = .ok (.flag false)
  next : ∀ keep, Prod.fst <$> workspace.step (.next name keep : Command P E) = .ok (.row none)
  drain : ∀ limit, Prod.fst <$> workspace.step (.drain name limit : Command P E) = .ok (.rows [])

section Exhausted

variable (hsearch : workspace.searches.get? name = some search)
  (hexhausted : search.progress = .exhausted)

include hsearch hexhausted

omit [LawfulContainer C α P E] in
theorem write_matchNext_exhausted :
    workspace.write (.matchNext name : Command P E) = .ok (.flag false, some search) := by
  simp only [write, register_of_get? hsearch, Search.matchNext_exhausted hexhausted, ok_bind,
    pure_eq_ok, Reply.orBroken_ok]

omit [LawfulContainer C α P E] in
theorem write_next_exhausted (keep : Option String) :
    workspace.write (.next name keep : Command P E) = .ok (.row none, some search) := by
  simp only [write, register_of_get? hsearch, Search.matchNext_exhausted hexhausted, ok_bind,
    pure_eq_ok, Reply.orBroken_ok, Bool.false_eq_true, ↓reduceIte]

theorem write_drain_exhausted (hsound : workspace.Sound) (limit : Option Nat) :
    workspace.write (.drain name limit : Command P E) = .ok (.rows [], some search) := by
  obtain ⟨bound, hbound, -⟩ := Search.rowBound_spec hsound.containers
    (hsound.fit name search hsearch) (hsound.held hsearch)
  simp only [write, register_of_get? hsearch, Search.takeUpTo_exhausted hexhausted hbound, ok_bind,
    pure_eq_ok, Reply.orBroken_ok]

end Exhausted

namespace Sound

variable (hsound : workspace.Sound) (hsearch : workspace.searches.get? name = some search)
  (hexhausted : search.progress = .exhausted)

include hsound hsearch hexhausted

theorem spent (hsettled : workspace.Searches Search.Settled) : workspace.Spent name where
  search := by
    have hend := hsettled name search hsearch hexhausted
    refine ⟨search, hsearch, ?_, ?_⟩
    · rw [← hend]
      rfl
    · rw [← hend, Search.holds_exhaust]
  matchNext := hsound.answer_of_write (write_matchNext_exhausted hsearch hexhausted) rfl
  next keep := hsound.answer_of_write (write_next_exhausted hsearch hexhausted keep) rfl
  drain limit :=
    hsound.answer_of_write (write_drain_exhausted hsearch hexhausted hsound limit) rfl

/-- An exhausted search stays as it is, unless it is renewed or reassigned. -/
theorem stays (hrenews : ¬command.Renews name) (hreassigns : ¬command.Reassigns name search)
    (hstep : workspace.step command = .ok (reply, after)) :
    after.searches.get? name = some search := by
  by_cases htouches : command.Touches name
  · have hwrite := hsound.write_of_step (Command.touches_iff.mp htouches) hstep
    cases command with
    | matchNext other =>
        obtain rfl : other = name := htouches
        rw [write_matchNext_exhausted hsearch hexhausted] at hwrite
        exact (congrArg Prod.snd (Except.ok.inj hwrite)).symm
    | next other keep =>
        obtain rfl : other = name := htouches
        rw [write_next_exhausted hsearch hexhausted] at hwrite
        exact (congrArg Prod.snd (Except.ok.inj hwrite)).symm
    | drain other limit =>
        obtain rfl : other = name := htouches
        rw [write_drain_exhausted hsearch hexhausted hsound] at hwrite
        exact (congrArg Prod.snd (Except.ok.inj hwrite)).symm
    | assignSearch target source =>
        obtain rfl : target = name := htouches
        simp only [write, register_of_get? hsearch, ok_bind, bind_eq_ok] at hwrite
        obtain ⟨copied, -, hassigned⟩ := hwrite
        split at hassigned
        · cases hassigned
        · next hunbound => exact absurd ⟨rfl, Bool.eq_false_iff.mpr hunbound⟩ hreassigns
    | search target keep => exact absurd htouches hrenews
    | rewind other => exact absurd htouches hrenews
    | copySearch source keep => exact absurd htouches hrenews
    | dropSearch other => exact absurd htouches hrenews
    | _ => exact absurd htouches id
  · have hkeeps := hsound.step_keeps command
    rw [hstep] at hkeeps
    exact (hkeeps.2.2 name htouches).trans hsearch

/-- However a run goes on, a search that was exhausted is at its end. -/
theorem spent_run (hsettled : workspace.Searches Search.Settled) {later : List (Command P E)}
    (hlater : ∀ command ∈ later, ¬command.Renews name ∧ ¬command.Reassigns name search) :
    (workspace.run later).2.Spent name := by
  obtain ⟨hlast, hkept⟩ := hsound.run_preserves
    (fun after => after.searches.get? name = some search) (fun before after command reply hbefore
      hcommand hstep hfound => hbefore.stays hfound hexhausted (hlater command hcommand).1
        (hlater command hcommand).2 hstep) hsearch
  exact hlast.spent hkept hexhausted (Search.hereditary_settled.run hsound hsettled later)

end Sound

/-- How a search starts anew and ends: it can be asked for again, it is drained of the same rows in
whatever way it starts anew, or broken off if its pattern names the greatest slot, rewinding it
twice is rewinding it once, and once it is exhausted, or reports that there is no further match, it
is at its end until it is renewed or reassigned. -/
structure Restarts (workspace : Workspace C P) (name : String) (search : Search P) : Prop where
  asked : ∃ request, workspace.Asks search request
  drains : ∀ limit, ∃ rows, workspace.Drains (E := E) name search limit rows ∧
    ∀ fault, rows = .error fault → search.Overruns C
  twice : (workspace.run ([.rewind name, .rewind name] : List (Command P E))).2 =
    (workspace.run ([.rewind name] : List (Command P E))).2
  rests : search.progress = .exhausted → ∀ later : List (Command P E),
    (∀ command ∈ later, ¬command.Renews name ∧ ¬command.Reassigns name search) →
      (workspace.run later).2.Spent name
  ends : ∀ after ended, workspace.step (.matchNext name : Command P E) = .ok (.flag false, after) →
    after.searches.get? name = some ended → ∀ later : List (Command P E),
      (∀ command ∈ later, ¬command.Renews name ∧ ¬command.Reassigns name ended) →
        (after.run later).2.Spent name

theorem Sound.restarts [Uncounting C α P E] (hsound : workspace.Sound)
    (hsettled : workspace.Searches Search.Settled)
    (hsearch : workspace.searches.get? name = some search) : workspace.Restarts name search where
  asked := workspace.exists_asks search
  drains := hsound.drains hsearch
  twice := hsound.rewind_twice hsearch
  rests hexhausted _ hlater := hsound.spent_run hsearch hexhausted hsettled hlater
  ends after ended hstep hended later hlater := by
    obtain ⟨found, next, after', hnext, hstep', hexchanged⟩ :=
      hsound.matchNext_step (E := E) hsearch
    obtain ⟨hreply, rfl⟩ := Prod.mk.inj (Except.ok.inj (hstep'.symm.trans hstep))
    obtain rfl := Reply.eq_ok_of_orBroken_flag hreply
    obtain ⟨found', next', hnext', hstepped⟩ := Search.matchNext_spec hsound.containers
      (hsound.fit name search hsearch) (hsound.held hsearch)
    cases hnext.symm.trans hnext'
    cases hended.symm.trans (get?_of_exchanged hexchanged)
    exact hexchanged.sound.spent_run hended (hstepped.exhausted rfl)
      (Search.hereditary_settled.behind hsound hsettled hstep) hlater

/-- Whatever is done to grammars, or to automata, every search that is kept starts anew and ends as
it should, wherever it is. -/
theorem searches_restart (A : Type) [DecidableEq A] (count : Nat) (name : String) :
    (∀ (commands : List (Command Grammar.Pattern (Grammar.Edit A)))
        (search : Search Grammar.Pattern),
      (reached (Grammar.empty : Grammar A) count commands).searches.get? name = some search →
        (reached (Grammar.empty : Grammar A) count commands).Restarts name search) ∧
    ∀ (commands : List (Command Automaton.Pattern (Automaton.Edit A)))
        (search : Search Automaton.Pattern),
      (reached (Automaton.initial : Automaton A) count commands).searches.get? name =
          some search →
        (reached (Automaton.initial : Automaton A) count commands).Restarts name search := by
  constructor
  · intro commands search hsearch
    have hsettled := Search.hereditary_settled.reached (sound_grammars (A := A) count) commands
    exact (sound_grammars count commands).restarts hsettled hsearch
  · intro commands search hsearch
    have hsettled := Search.hereditary_settled.reached (sound_automata (A := A) count) commands
    exact (sound_automata count commands).restarts hsettled hsearch

/-- A run after which a search of productions is at one that has been removed. -/
def halting : List (Command Grammar.Pattern (Grammar.Edit Nat)) :=
  [.edit 0 (.addVariables 2) none,
    .edit 0 (.addProduction (.ofVariable 1) .empty) none,
    .edit 0 (.addProduction (.ofVariable 1) (.ofSymbol (.ofVariable 2))) (some "next"),
    .edit 0 (.addProduction (.ofVariable 2) .empty) none,
    .search (some (0, .elements)) "search", .matchNext "search", .remove 0 "next"]

/-- A run after which a search of states is exhausted. -/
def exhausting : List (Command Automaton.Pattern (Automaton.Edit Nat)) :=
  [.edit 0 (.addStates 1) none, .search (some (0, .groups)) "search", .drain "search" none]

/-- A search that is halfway and one that is exhausted start anew and end as they should. -/
theorem searches_restart_halfway :
    (∃ search, (reached (Grammar.empty : Grammar Nat) 1 halting).searches.get? "search" =
        some search ∧ search.progress = .running ∧
      (reached (Grammar.empty : Grammar Nat) 1 halting).Restarts "search" search) ∧
    ∃ search, (reached (Automaton.initial : Automaton Nat) 1 exhausting).searches.get? "search" =
        some search ∧ search.progress = .exhausted ∧
      (reached (Automaton.initial : Automaton Nat) 1 exhausting).Restarts "search" search := by
  have hsearch : (reached (Grammar.empty : Grammar Nat) 1 halting).searches.get? "search" =
      some ⟨some (0, .elements (some ⟨1, 0⟩)), .running,
        { element := some ⟨0, ⟨0, 0⟩⟩, group := some 0 }⟩ := rfl
  have hsearch' : (reached (Automaton.initial : Automaton Nat) 1 exhausting).searches.get?
      "search" = some ⟨some (0, .groups 2), .exhausted, .empty⟩ := rfl
  exact ⟨⟨_, hsearch, rfl, (searches_restart Nat 1 "search").1 halting _ hsearch⟩,
    ⟨_, hsearch', rfl, (searches_restart Nat 1 "search").2 exhausting _ hsearch'⟩⟩

end Workspace

end FormalLanguages
