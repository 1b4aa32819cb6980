/-
# Who holds what settles the counts

In a sound workspace there are as many references to an element as there are things kept that refer
to it.  So the reference counts of the containers are settled by the tables of what is kept, and two
workspaces that keep the same are the same if their containers agree in everything else.

The commands that keep and drop things are stated here by what they leave: the tables in which
something was written, and containers in which references were counted anew.
-/

import FormalLanguages.Proofs.Workspace.Frame
import FormalLanguages.Proofs.Workspace.Step

namespace FormalLanguages.Workspace

variable {C α P E : Type} [Container C α P E]

/-- A run goes on behind a command that succeeds. -/
theorem run_of_ok {workspace after : Workspace C P} {command : Command P E} {reply : Reply}
    (hstep : workspace.step command = .ok (reply, after)) (rest : List (Command P E)) :
    workspace.run (command :: rest) = (.ok reply :: (after.run rest).1, (after.run rest).2) := by
  simp only [run, hstep]

variable [LawfulContainer C α P E] {workspace : Workspace C P} {name keep : String}
  {handle : Handle} {search next : Search P}

namespace Sound

variable (hsound : workspace.Sound)

include hsound

/-- With the same things kept, containers that agree in everything but their counts are the same. -/
theorem containers_eq [Uncounting C α P E] {containers : Array C}
    (hafter : { workspace with containers }.Sound)
    (huncounted : containers.map Container.uncounted =
      workspace.containers.map Container.uncounted) : containers = workspace.containers := by
  apply Array.ext_getElem?
  intro number
  have hnumber := congrArg (·[number]?) huncounted
  simp only [Array.getElem?_map] at hnumber
  cases hcontainer : workspace.containers[number]? with
  | none => simpa [hcontainer] using hnumber
  | some container =>
      have ⟨now, hnow, hsame⟩ : ∃ now, containers[number]? = some now ∧
          Container.uncounted now = Container.uncounted container := by
        simpa [hcontainer] using hnumber
      rw [hnow, Option.some.injEq]
      apply Container.eq_of_uncounted hsame
      intro key cell cell' hcell hcell'
      have hentry : entryAt workspace.containers ⟨number, key⟩ = some cell.entry :=
        (entryAt_eq hcontainer key).trans (Graph.stored?_eq_entry hcell)
      have hentry' : entryAt containers ⟨number, key⟩ = some cell'.entry :=
        (entryAt_eq hnow key).trans (Graph.stored?_eq_entry hcell')
      exact (hafter.owed.counted _ _ hentry').trans (hsound.owed.counted _ _ hentry).symm

theorem keepHandle_counted (name : String) (hreadable : Readable workspace.containers handle) :
    ∃ containers, Counted workspace.containers containers ∧
      workspace.keepHandle name handle =
        .ok { workspace with containers, handles := workspace.handles.insert name handle } ∧
      { workspace with containers, handles := workspace.handles.insert name handle }.Sound := by
  have ⟨after, hkeep, hexchanged⟩ := hsound.keepHandle_spec name hreadable
  obtain ⟨containers, hcounted, rfl⟩ := Workspace.keepHandle_counted hsound.containers hkeep
  exact ⟨containers, hcounted, hkeep, hexchanged.sound⟩

theorem keepSearch_counted (name : String) (hfit : search.Fit workspace.containers.size)
    (hheld : search.Held workspace.containers) :
    ∃ containers, Counted workspace.containers containers ∧
      workspace.keepSearch name search =
        .ok { workspace with containers, searches := workspace.searches.insert name search } ∧
      { workspace with
        containers, searches := workspace.searches.insert name search }.Sound := by
  have ⟨after, hkeep, hexchanged⟩ := hsound.keepSearch_spec name hfit hheld
  obtain ⟨containers, hcounted, rfl⟩ := Workspace.keepSearch_counted hsound.containers hkeep
  exact ⟨containers, hcounted, hkeep, hexchanged.sound⟩

/-- Going on with a search writes it, and nothing else. -/
theorem next_counted {found : Except Fault Bool}
    (hsearch : workspace.searches.get? name = some search)
    (hnext : search.matchNext workspace.containers = .ok (found, next)) :
    ∃ containers, Counted workspace.containers containers ∧
      workspace.step (.next name none : Command P E) =
        .ok (.orBroken (fun hit => .row (if hit then some next.current else none)) found,
          { workspace with containers, searches := workspace.searches.insert name next }) ∧
      { workspace with containers, searches := workspace.searches.insert name next }.Sound := by
  have ⟨found', next', hnext', hstepped⟩ := Search.matchNext_spec hsound.containers
    (hsound.fit name search hsearch) (hsound.held hsearch)
  cases hnext.symm.trans hnext'
  have ⟨containers, hcounted, hkeep, hafter⟩ :=
    hsound.keepSearch_counted name hstepped.fit hstepped.held
  refine ⟨containers, hcounted, ?_, hafter⟩
  simp only [step, register_of_get? hsearch, hnext, hkeep, ok_bind, pure_eq_ok]
  cases found with
  | error _ => rfl
  | ok found =>
      cases found with
      | false => rfl
      | true => rfl

/-- Taking a handle from a search keeps it, and nothing else. -/
theorem takeFromSearch_counted (hsearch : workspace.searches.get? name = some search)
    (helement : search.current.element = some handle) (keep : String) :
    ∃ containers, Counted workspace.containers containers ∧
      workspace.step (.takeFromSearch name keep : Command P E) =
        .ok (.handle (some handle),
          { workspace with containers, handles := workspace.handles.insert keep handle }) ∧
      { workspace with containers, handles := workspace.handles.insert keep handle }.Sound := by
  have ⟨containers, hcounted, hkeep, hafter⟩ :=
    hsound.keepHandle_counted keep (hsound.readable_of_current hsearch helement)
  refine ⟨containers, hcounted, ?_, hafter⟩
  simp only [step, register_of_get? hsearch, takeElement, helement, hkeep, ok_bind, pure_eq_ok]

theorem dropHandle_counted (name : String) :
    ∃ containers, Counted workspace.containers containers ∧
      workspace.step (.dropHandle name : Command P E) =
        .ok (.flag (workspace.handles.get? name).isSome,
          { workspace with containers, handles := workspace.handles.erase name }) ∧
      { workspace with containers, handles := workspace.handles.erase name }.Sound := by
  have ⟨after, hdrop, hexchanged⟩ := hsound.dropHandle_spec name
  obtain ⟨containers, hcounted, rfl⟩ := Workspace.dropHandle_counted hsound.containers hdrop
  exact ⟨containers, hcounted, by simp only [step, hdrop, ok_bind, pure_eq_ok], hexchanged.sound⟩

theorem dropSearch_counted (name : String) :
    ∃ containers, Counted workspace.containers containers ∧
      workspace.step (.dropSearch name : Command P E) =
        .ok (.flag (workspace.searches.get? name).isSome,
          { workspace with containers, searches := workspace.searches.erase name }) ∧
      { workspace with containers, searches := workspace.searches.erase name }.Sound := by
  have ⟨after, hdrop, hexchanged⟩ := hsound.dropSearch_spec name
  obtain ⟨containers, hcounted, rfl⟩ := Workspace.dropSearch_counted hsound.containers hdrop
  exact ⟨containers, hcounted, by simp only [step, hdrop, ok_bind, pure_eq_ok], hexchanged.sound⟩

/-- A new search for a pattern has a pattern of its own. -/
theorem search_counted {number : Nat} {container : C}
    (hcontainer : workspace.containers[number]? = some container) (pattern : P) (keep : String) :
    let search : Search P := .along number (.matching ⟨workspace.serial, pattern⟩ none)
    ∃ containers, Counted workspace.containers containers ∧
      workspace.step (.search (some (number, .matching pattern)) keep : Command P E) =
        .ok (.done, { workspace with
          containers
          searches := workspace.searches.insert keep search
          serial := workspace.serial + 1 }) ∧
      { workspace with
        containers
        searches := workspace.searches.insert keep search
        serial := workspace.serial + 1 }.Sound := by
  intro search
  have hserial := (hsound.withPatterns workspace.patterns (workspace.serial + 1)).sound
  have ⟨containers, hcounted, hkeep, hafter⟩ := hserial.keepSearch_counted keep
    (Search.fit_along hcontainer (.matching ⟨workspace.serial, pattern⟩ none))
    (Search.held_along rfl)
  have heq : workspace.container number = .ok container := containerAt_eq hcontainer
  refine ⟨containers, hcounted, ?_, hafter⟩
  simp only [step, newSearch, heq, axisOf, share, hkeep, ok_bind, pure_eq_ok]
  rfl

end Sound

end FormalLanguages.Workspace
