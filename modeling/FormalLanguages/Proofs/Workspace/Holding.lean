/-
# Handle by handle, every command comes to its exchange

At the end of a command the references are owed to what is kept, and what is kept settles the
counts.  So a command that is carried out handle by handle leaves the same workspace as one that
exchanges the references of what came for those of what went, and a run of such commands reaches the
same workspaces.

In them the references of a store, which does not know who holds them, agree with a list that no
operation maintains: the holders, read off from what is kept at the moment.  The main theorem says
so of every workspace that a run reaches, handle by handle, and that in none of its commands a
handle is dropped that has no reference, is followed to an element that is gone, or loses its
element.
-/

import FormalLanguages.Proofs.Holding.Search
import FormalLanguages.Proofs.Workspace.Account
import FormalLanguages.Proofs.Workspace.Heredity
import FormalLanguages.Proofs.Workspace.Settling

namespace FormalLanguages

variable {C α P E : Type} [Container C α P E] [LawfulContainer C α P E] [Uncounting C α P E]
  {workspace : Workspace C P} {origin containers : Array C} {name : String} {handle : Handle}
  {found : Match} {search next : Search P}

namespace Workspace.Sound

/-- In the middle of a command in which references are owed to what a sound workspace keeps, the
containers are those of the workspace. -/
theorem eq_of_midway (hsound : workspace.Sound) (hcounted : Counted origin workspace.containers)
    (hmidway : Holding.Midway origin workspace.holders containers) :
    containers = workspace.containers := by
  apply hsound.containers_eq
  · refine ⟨hmidway.counted.sound, hmidway.owed, fun name search hsearch => ?_⟩
    have hsize : containers.size = workspace.containers.size :=
      hmidway.counted.size_eq.trans hcounted.size_eq.symm
    exact hsize ▸ hsound.fit name search hsearch
  · rw [hmidway.counted.uncounted_eq, hcounted.uncounted_eq]

variable (hsound : workspace.Sound)

include hsound

omit [Uncounting C α P E] in
theorem midway : Holding.Midway workspace.containers workspace.holders workspace.containers :=
  ⟨.refl hsound.containers, hsound.owed⟩

/-- A handle that is in hand and put in the place of another one is kept. -/
theorem keepHandle_eq (hmidway : Holding.Midway workspace.containers
      (handle :: { workspace with handles := workspace.handles.erase name }.holders) containers)
    (hreadable : Readable workspace.containers handle) :
    workspace.keepHandle name handle =
      .ok { workspace with containers, handles := workspace.handles.insert name handle } := by
  obtain ⟨kept, hcounted, hkeep, hafter⟩ := hsound.keepHandle_counted name hreadable
  rw [hkeep, hafter.eq_of_midway hcounted hmidway]

theorem dropHandle_eq (hmidway : Holding.Midway workspace.containers
      { workspace with handles := workspace.handles.erase name }.holders containers) :
    workspace.dropHandle name = .ok ((workspace.handles.get? name).isSome,
      { workspace with containers, handles := workspace.handles.erase name }) := by
  obtain ⟨after, hdrop, hexchanged⟩ := hsound.dropHandle_spec name
  obtain ⟨kept, hcounted, rfl⟩ := Workspace.dropHandle_counted hsound.containers hdrop
  rw [hdrop, hexchanged.sound.eq_of_midway hcounted hmidway]

theorem keepMatch_eq (hmidway : Holding.Midway workspace.containers
      (found.element.toList ++
        { workspace with results := workspace.results.erase name }.holders) containers)
    (hreadable : ∀ handle, found.element = some handle →
      Readable workspace.containers handle) :
    workspace.keepMatch name found =
      .ok { workspace with containers, results := workspace.results.insert name found } := by
  obtain ⟨after, hkeep, hexchanged⟩ := hsound.keepMatch_spec name hreadable
  obtain ⟨kept, hcounted, rfl⟩ := Workspace.keepMatch_counted hsound.containers hkeep
  rw [hkeep, hexchanged.sound.eq_of_midway hcounted
    (hmidway.perm (Workspace.holders_insert_match workspace name found).symm)]

theorem dropMatch_eq (hmidway : Holding.Midway workspace.containers
      { workspace with results := workspace.results.erase name }.holders containers) :
    workspace.dropMatch name = .ok ((workspace.results.get? name).isSome,
      { workspace with containers, results := workspace.results.erase name }) := by
  obtain ⟨after, hdrop, hexchanged⟩ := hsound.dropMatch_spec name
  obtain ⟨kept, hcounted, rfl⟩ := Workspace.dropMatch_counted hsound.containers hdrop
  rw [hdrop, hexchanged.sound.eq_of_midway hcounted hmidway]

theorem keepSearch_eq (hfit : search.Fit workspace.containers.size)
    (hheld : search.Held workspace.containers)
    (hmidway : Holding.Midway workspace.containers (search.holds ++
      { workspace with searches := workspace.searches.erase name }.holders) containers) :
    workspace.keepSearch name search =
      .ok { workspace with containers, searches := workspace.searches.insert name search } := by
  obtain ⟨kept, hcounted, hkeep, hafter⟩ := hsound.keepSearch_counted name hfit hheld
  rw [hkeep, hafter.eq_of_midway hcounted
    (hmidway.perm (Workspace.holders_insert_search workspace name search).symm)]

theorem dropSearch_eq (hmidway : Holding.Midway workspace.containers
      { workspace with searches := workspace.searches.erase name }.holders containers) :
    workspace.dropSearch name = .ok ((workspace.searches.get? name).isSome,
      { workspace with containers, searches := workspace.searches.erase name }) := by
  obtain ⟨after, hdrop, hexchanged⟩ := hsound.dropSearch_spec name
  obtain ⟨kept, hcounted, rfl⟩ := Workspace.dropSearch_counted hsound.containers hdrop
  rw [hdrop, hexchanged.sound.eq_of_midway hcounted hmidway]

end Workspace.Sound

namespace Holding

omit [Container C α P E] [LawfulContainer C α P E] [Uncounting C α P E] in
/-- What is done with the content of a register comes to the same if it does for every content: an
empty register ends both. -/
theorem register_congr {ν β : Type} {table : Table String ν} {first second : ν → Except Fault β}
    (hsame : ∀ value, table.get? name = some value → first value = second value) :
    (Workspace.register table name >>= first) = (Workspace.register table name >>= second) := by
  rcases Workspace.register_eq table name with ⟨value, hvalue, heq⟩ | heq
  · rw [heq, ok_bind, ok_bind, hsame value hvalue]
  · rw [heq, error_bind, error_bind]

/-- A match that may be there refers to an element if it is and has one. -/
theorem heldByMatch_get? (found : Option Match) :
    found.toList.flatMap Workspace.heldByMatch = (found.bind Match.element).toList := by
  cases found <;> simp [Workspace.heldByMatch]

variable {workspace : Workspace C P} {reply : Reply} {number : Nat} (hsound : workspace.Sound)

include hsound

section Storing

/-- Storing a handle in hand is keeping it. -/
theorem storeHandle_eq (name : String)
    (hmidway : Midway workspace.containers (handle :: workspace.holders) containers)
    (hreadable : Readable workspace.containers handle) :
    storeHandle name { workspace with containers } handle = workspace.keepHandle name handle := by
  have hperm := ((workspace.holders_perm_handle name).cons handle).trans List.perm_middle.symm
  obtain ⟨after, hrelease, hafter⟩ := releaseAny_spec
    { workspace with containers, handles := workspace.handles.insert name handle }
    (hmidway.perm hperm)
  rw [hsound.keepHandle_eq hafter hreadable]
  exact hrelease

/-- Storing a copy of a match is keeping it. -/
theorem storeMatch_eq (name : String)
    (hmidway : Midway workspace.containers (found.element.toList ++ workspace.holders) containers)
    (hreadable : ∀ handle, found.element = some handle →
      Readable workspace.containers handle) :
    storeMatch name { workspace with containers } found = workspace.keepMatch name found := by
  have hperm := ((workspace.holders_perm_match name).append_left found.element.toList).trans
    (List.perm_append_comm_assoc _ _ _)
  rw [heldByMatch_get?] at hperm
  obtain ⟨after, hrelease, hafter⟩ := releaseAny_spec
    { workspace with containers, results := workspace.results.insert name found }
    (hmidway.perm hperm)
  rw [hsound.keepMatch_eq hafter hreadable]
  exact hrelease

/-- Storing a search is keeping it. -/
theorem storeSearch_eq (name : String) (hfit : search.Fit workspace.containers.size)
    (hheld : search.Held workspace.containers)
    (hmidway : Midway workspace.containers (search.holds ++ workspace.holders) containers) :
    storeSearch name { workspace with containers } search = workspace.keepSearch name search := by
  have hperm := ((workspace.holders_perm_search name).append_left search.holds).trans
    (List.perm_append_comm_assoc _ _ _)
  obtain ⟨after, hrelease, hafter⟩ := releaseSearch_spec
    { workspace with containers, searches := workspace.searches.insert name search }
    (workspace.searches.get? name) (hmidway.perm hperm)
  rw [hsound.keepSearch_eq hfit hheld hafter]
  exact hrelease

/-- Storing a copy of a search that is kept is keeping the copy. -/
theorem storeCopy_eq (hsearch : workspace.searches.get? name = some search) (keep : String) :
    ∃ containers, holdAny search.position workspace = .ok { workspace with containers } ∧
      storeSearch keep { workspace with containers } search.copy =
        workspace.keepSearch keep search.copy := by
  have hheld := Search.held_copy (hsound.held hsearch)
  have hholds : search.copy.holds = search.position.toList := search.copy.holds_eq
  have hreadable (handle : Handle) (hhandle : search.position = some handle) :
      Readable workspace.containers handle :=
    hheld handle (hholds ▸ Option.mem_toList.mpr hhandle)
  obtain ⟨containers, hhold, hcontainers⟩ := holdAny_spec workspace hsound.midway hreadable
  exact ⟨containers, hhold, storeSearch_eq hsound keep
    (Search.fit_copy (hsound.fit name search hsearch)) hheld (hholds ▸ hcontainers)⟩

end Storing

omit [Uncounting C α P E] in
/-- A search that is kept has its references, beside what else is kept. -/
theorem midway_search (hsearch : workspace.searches.get? name = some search) :
    Midway workspace.containers (search.holds ++
      { workspace with searches := workspace.searches.erase name }.holders)
      workspace.containers := by
  have hperm := workspace.holders_perm_search name
  rw [hsearch, Option.toList_some, List.flatMap_singleton] at hperm
  exact hsound.midway.perm hperm

section Steps

theorem copyHandle_eq (source keep : String) :
    step workspace (.copyHandle source keep : Command P E) =
      workspace.step (.copyHandle source keep) := by
  apply register_congr
  intro handle hhandle
  have hreadable := hsound.readable_of_handle hhandle
  obtain ⟨middle, hhold, hmiddle⟩ := hold_spec workspace hsound.midway hreadable
  rw [hhold, ok_bind, storeHandle_eq hsound keep hmiddle hreadable]

theorem assignHandle_eq (target source : String) :
    step workspace (.assignHandle target source : Command P E) =
      workspace.step (.assignHandle target source) := by
  apply register_congr
  intro before hbefore
  apply register_congr
  intro handle hhandle
  have hreadable := hsound.readable_of_handle hhandle
  have hperm := workspace.holders_perm_handle target
  rw [hbefore] at hperm
  obtain ⟨containers, hreassign, hcontainers⟩ :=
    reassign_spec workspace (hsound.midway.perm hperm) hreadable
  rw [hreassign, ok_bind, hsound.keepHandle_eq hcontainers hreadable, ok_bind]

theorem dropHandle_eq (name : String) :
    step workspace (.dropHandle name : Command P E) = workspace.step (.dropHandle name) := by
  obtain ⟨containers, hrelease, hcontainers⟩ := releaseAny_spec
    { workspace with handles := workspace.handles.erase name }
    (hsound.midway.perm (workspace.holders_perm_handle name))
  simp only [step, Workspace.step, hrelease, hsound.dropHandle_eq hcontainers, ok_bind, pure_eq_ok]

theorem search_eq (target : Option (Nat × Query P)) (keep : String) :
    step workspace (.search target keep : Command P E) = workspace.step (.search target keep) := by
  cases target with
  | none =>
      have hheld : (Search.unbound : Search P).Held workspace.containers := by
        intro handle hhandle
        cases hhandle
      simp only [step, Workspace.step, Workspace.newSearch]
      rw [← storeSearch_eq hsound keep (Search.fit_unbound _) hheld hsound.midway]
  | some target =>
      obtain ⟨number, query⟩ := target
      rcases workspace.container_eq number with ⟨container, hcontainer, heq⟩ | heq
      · rcases workspace.axisOf_spec query with ⟨axis, serial, haxis, hcursor⟩ | ⟨other, haxis⟩
        · have hserial := (hsound.withPatterns workspace.patterns serial).sound
          have hholds : (Search.along number axis).holds = [] := by
            simp [Search.holds, Search.along, Match.empty, hcursor]
          have hmidway : Midway workspace.containers ((Search.along number axis).holds ++
              { workspace with serial }.holders) workspace.containers := by
            rw [hholds]
            exact hserial.midway
          have hstore := storeSearch_eq hserial keep (Search.fit_along hcontainer axis)
            (Search.held_along hcursor) hmidway
          simp only [step, Workspace.step, Workspace.newSearch, heq, haxis, ok_bind]
          rw [← hstore]
        · simp only [step, Workspace.step, Workspace.newSearch, heq, haxis, ok_bind, error_bind]
      · simp only [step, Workspace.step, Workspace.newSearch, heq, error_bind]

theorem copySearch_eq (source keep : String) :
    step workspace (.copySearch source keep : Command P E) =
      workspace.step (.copySearch source keep) := by
  apply register_congr
  intro search hsearch
  obtain ⟨middle, hhold, hstore⟩ := storeCopy_eq hsound hsearch keep
  rw [hhold, ok_bind, hstore]

theorem assignSearch_eq (target source : String) :
    step workspace (.assignSearch target source : Command P E) =
      workspace.step (.assignSearch target source) := by
  apply register_congr
  intro before _
  apply register_congr
  intro search hsearch
  obtain ⟨middle, hhold, hstore⟩ := storeCopy_eq hsound hsearch target
  rw [hhold, ok_bind, hstore]

theorem dropSearch_eq (name : String) :
    step workspace (.dropSearch name : Command P E) = workspace.step (.dropSearch name) := by
  obtain ⟨containers, hrelease, hcontainers⟩ := releaseSearch_spec
    { workspace with searches := workspace.searches.erase name } (workspace.searches.get? name)
    (hsound.midway.perm (workspace.holders_perm_search name))
  simp only [step, Workspace.step, hrelease, hsound.dropSearch_eq hcontainers, ok_bind, pure_eq_ok]

theorem takeElement_eq (keep : String) (hreadable : ∀ handle, found.element = some handle →
      Readable workspace.containers handle) :
    takeElement keep workspace found = workspace.takeElement found keep := by
  cases helement : found.element with
  | none => simp only [takeElement, Workspace.takeElement, helement]
  | some handle =>
      have hreadable := hreadable handle helement
      obtain ⟨middle, hhold, hmiddle⟩ := hold_spec workspace hsound.midway hreadable
      simp only [takeElement, Workspace.takeElement, helement, hhold,
        storeHandle_eq hsound keep hmiddle hreadable, ok_bind]

theorem takeFromSearch_eq (source keep : String) :
    step workspace (.takeFromSearch source keep : Command P E) =
      workspace.step (.takeFromSearch source keep) := by
  apply register_congr
  intro search hsearch
  exact takeElement_eq hsound keep fun handle => hsound.readable_of_current hsearch

theorem takeFromMatch_eq (source keep : String) :
    step workspace (.takeFromMatch source keep : Command P E) =
      workspace.step (.takeFromMatch source keep) := by
  apply register_congr
  intro found hfound
  exact takeElement_eq hsound keep fun handle => hsound.readable_of_match hfound

theorem copyMatch_eq (source keep : String) :
    step workspace (.copyMatch source keep : Command P E) =
      workspace.step (.copyMatch source keep) := by
  apply register_congr
  intro found hfound
  have hreadable (handle : Handle) (hhandle : found.element = some handle) :=
    hsound.readable_of_match hfound hhandle
  obtain ⟨middle, hhold, hmiddle⟩ := holdAny_spec workspace hsound.midway hreadable
  rw [hhold, ok_bind, storeMatch_eq hsound keep hmiddle hreadable]

theorem dropMatch_eq (name : String) :
    step workspace (.dropMatch name : Command P E) = workspace.step (.dropMatch name) := by
  have hperm := workspace.holders_perm_match name
  rw [heldByMatch_get?] at hperm
  obtain ⟨containers, hrelease, hcontainers⟩ := releaseAny_spec
    { workspace with results := workspace.results.erase name } (hsound.midway.perm hperm)
  simp only [step, Workspace.step, hrelease, hsound.dropMatch_eq hcontainers, ok_bind, pure_eq_ok]

theorem edit_eq (number : Nat) (change : E) (keep : Option String) :
    step workspace (.edit number change keep : Command P E) =
      workspace.step (.edit number change keep) := by
  rcases workspace.container_eq number with ⟨container, hcontainer, heq⟩ | heq
  · rcases LawfulContainer.edit_spec (hsound.containers number container hcontainer) change with
      ⟨answer, now, hedit, hedited⟩ | ⟨kind, hedit⟩
    · cases answer with
      | element key =>
          have hbase := (hsound.replaced now hcontainer hedited.sound hedited.evolves).sound
          obtain ⟨entry, hentry⟩ := hedited.stored key rfl
          have hreadable : Readable (workspace.setContainer number now).containers
              ⟨number, key⟩ := by
            refine ⟨entry, (entryAt_replaced hcontainer now _).trans ?_⟩
            rw [if_pos rfl, hentry]
          obtain ⟨middle, hhold, hmiddle⟩ := hold_spec _ hbase.midway hreadable
          cases keep with
          | some name =>
              simp only [step, edit, Workspace.step, Workspace.edit, heq, hedit, hhold,
                storeHandle_eq hbase name hmiddle hreadable, ok_bind]
          | none =>
              obtain ⟨after, hrelease, hafter⟩ :=
                release_spec { workspace.setContainer number now with containers := middle } hmiddle
              have hsame := hbase.eq_of_midway (.refl hbase.containers) hafter
              simp only [step, edit, Workspace.step, Workspace.edit, heq, hedit, hhold, hrelease,
                hsame, ok_bind, pure_eq_ok]
      | _ => simp only [step, edit, Workspace.step, Workspace.edit, heq, hedit, ok_bind]
    · simp only [step, edit, Workspace.step, Workspace.edit, heq, hedit, ok_bind, error_bind]
  · simp only [step, edit, Workspace.step, Workspace.edit, heq, error_bind]

theorem rewind_eq (name : String) :
    step workspace (.rewind name : Command P E) = workspace.step (.rewind name) := by
  apply register_congr
  intro search hsearch
  have hfit := hsound.fit name search hsearch
  obtain ⟨rewound, containers, hrewind, hpure, hcontainers⟩ :=
    rewind_spec workspace hsound.containers hfit (midway_search hsound hsearch)
  obtain ⟨_, hrewound, hfitNow, hheldNow, -⟩ := Search.rewind_spec hsound.containers hfit
  cases hpure.symm.trans hrewound
  simp only [hrewind, hpure, writeSearch, hsound.keepSearch_eq hfitNow hheldNow hcontainers,
    ok_bind, pure_eq_ok]

section Plain

variable (hplain : workspace.Searches Search.Plain)

include hplain

/-- Going on with the search under a name changes it where it is stored. -/
theorem matchNext_kept (hsearch : workspace.searches.get? name = some search) :
    ∃ found next containers, matchNext search workspace =
        .ok (found, next, { workspace with containers }) ∧
      search.matchNext workspace.containers = .ok (found, next) ∧
      workspace.keepSearch name next =
        .ok { workspace with containers, searches := workspace.searches.insert name next } ∧
      { workspace with containers, searches := workspace.searches.insert name next }.Sound := by
  have hfit := hsound.fit name search hsearch
  obtain ⟨found, next, containers, hnext, hpure, hcontainers⟩ := matchNext_spec workspace
    hsound.containers hfit (hsound.held hsearch) (hplain name search hsearch)
    (midway_search hsound hsearch)
  obtain ⟨_, _, hpure', hstepped⟩ :=
    Search.matchNext_spec hsound.containers hfit (hsound.held hsearch)
  cases hpure.symm.trans hpure'
  have hkeep := hsound.keepSearch_eq hstepped.fit hstepped.held hcontainers
  obtain ⟨after, hafter, hexchanged⟩ := hsound.keepSearch_spec name hstepped.fit hstepped.held
  cases hkeep.symm.trans hafter
  exact ⟨found, next, containers, hnext, hpure, hkeep, hexchanged.sound⟩

theorem matchNext_eq (name : String) :
    step workspace (.matchNext name : Command P E) = workspace.step (.matchNext name) := by
  apply register_congr
  intro search hsearch
  obtain ⟨found, next, containers, hnext, hpure, hkeep, -⟩ := matchNext_kept hsound hplain hsearch
  simp only [hnext, hpure, hkeep, writeSearch, ok_bind, pure_eq_ok]

/-- The copy of a match that `next` gives is kept, or dropped again. -/
theorem next_eq (name : String) (keep : Option String) :
    step workspace (.next name keep : Command P E) = workspace.step (.next name keep) := by
  apply register_congr
  intro search hsearch
  obtain ⟨found, after, containers, hnext, hpure, hkeep, hmiddle⟩ :=
    matchNext_kept hsound hplain hsearch
  cases found with
  | error fault => simp only [next, hnext, hpure, hkeep, writeSearch, ok_bind, pure_eq_ok]
  | ok found =>
      cases found with
      | false => simp only [next, hnext, hpure, hkeep, writeSearch, ok_bind, pure_eq_ok]
      | true =>
          have hreadable (handle : Handle) (hhandle : after.current.element = some handle) :
              Readable containers handle :=
            hmiddle.readable_of_current (Table.get?_insert_self ..) hhandle
          obtain ⟨copied, hhold, hcopied⟩ :=
            holdAny_spec { workspace with containers } hmiddle.midway hreadable
          cases keep with
          | none =>
              obtain ⟨last, hrelease, hlast⟩ := releaseAny_spec
                { workspace with
                  containers := copied, searches := workspace.searches.insert name after } hcopied
              have hsame := hmiddle.eq_of_midway (.refl hmiddle.containers) hlast
              simp only [next, hnext, hpure, hkeep, writeSearch, hhold, hrelease, hsame, ok_bind,
                pure_eq_ok]
          | some keep =>
              have hstore := storeMatch_eq hmiddle keep hcopied hreadable
              simp only [next, hnext, hpure, hkeep, writeSearch, hhold, hstore, ok_bind, pure_eq_ok]

theorem drain_eq (name : String) (limit : Option Nat) :
    step workspace (.drain name limit : Command P E) = workspace.step (.drain name limit) := by
  apply register_congr
  intro search hsearch
  have hfit := hsound.fit name search hsearch
  obtain ⟨rows, last, containers, htake, hpure, hcontainers⟩ := takeUpTo_spec workspace
    hsound.containers hfit (hsound.held hsearch) (hplain name search hsearch) limit
    (midway_search hsound hsearch)
  obtain ⟨_, _, _, hpure', htaken⟩ :=
    Search.takeUpTo_spec hsound.containers hfit (hsound.held hsearch) limit
  cases hpure.symm.trans hpure'
  simp only [htake, hpure, writeSearch, hsound.keepSearch_eq htaken.fit htaken.held hcontainers,
    ok_bind, pure_eq_ok]

/-- Carried out handle by handle, a command comes to its exchange. -/
theorem step_eq (command : Command P E) : step workspace command = workspace.step command := by
  cases command with
  | edit number change keep => exact edit_eq hsound number change keep
  | remove number name => rfl
  | reclaim number => rfl
  | copyHandle source keep => exact copyHandle_eq hsound source keep
  | assignHandle target source => exact assignHandle_eq hsound target source
  | dropHandle name => exact dropHandle_eq hsound name
  | search target keep => exact search_eq hsound target keep
  | matchNext name => exact matchNext_eq hsound hplain name
  | rewind name => exact rewind_eq hsound name
  | next name keep => exact next_eq hsound hplain name keep
  | drain name limit => exact drain_eq hsound hplain name limit
  | copySearch source keep => exact copySearch_eq hsound source keep
  | assignSearch target source => exact assignSearch_eq hsound target source
  | dropSearch name => exact dropSearch_eq hsound name
  | takeFromSearch source keep => exact takeFromSearch_eq hsound source keep
  | takeFromMatch source keep => exact takeFromMatch_eq hsound source keep
  | copyMatch source keep => exact copyMatch_eq hsound source keep
  | dropMatch name => exact dropMatch_eq hsound name
  | keepPattern pattern keep => rfl
  | dropPattern name => rfl

/-- A run that is carried out handle by handle answers the same and reaches the same workspace. -/
theorem run_eq (commands : List (Command P E)) :
    run workspace commands = workspace.run commands := by
  induction commands generalizing workspace with
  | nil => rfl
  | cons command rest ih =>
      have hkeeps := hsound.step_keeps command
      simp only [run, Workspace.run, step_eq hsound hplain command]
      cases hresult : workspace.step command with
      | error fault => simp only [ih hsound hplain]
      | ok result =>
          obtain ⟨reply, after⟩ := result
          rw [hresult] at hkeeps
          simp only [ih hkeeps.1 (Search.hereditary_plain.behind hsound hplain hresult)]

end Plain

end Steps

end Holding

section Reached

/-- A workspace whose references are those of the holders, and in which every handle that a command
makes or drops on its way has its reference. -/
structure Workspace.Accounted (workspace : Workspace C P) : Prop where
  /-- Every stored element has as many references as holders. -/
  counted : ∀ handle references, workspace.references handle = .ok references →
    references = workspace.holders.count handle
  /-- No holder's key is stale. -/
  readable : ∀ handle ∈ workspace.holders, ∃ element, workspace.read handle = .ok element
  /-- No command gives back a reference that nobody has, or frees what is in use. -/
  expected : ∀ (command : Command P E) fault, Holding.step workspace command = .error fault →
    fault.Expected
  /-- A command that is carried out leaves every holder its element. -/
  kept : ∀ (command : Command P E) reply after,
    Holding.step workspace command = .ok (reply, after) →
      ∀ handle ∈ workspace.holders, ∃ element now, workspace.read handle = .ok element ∧
        after.read handle = .ok now ∧ now.id = element.id ∧ now.group = element.group ∧
          now.data = element.data

/-- In a sound workspace the references are those of the holders. -/
theorem Workspace.Sound.accounted (hsound : workspace.Sound)
    (hplain : workspace.Searches Search.Plain) : workspace.Accounted where
  counted handle count hcount := hsound.references_eq hcount
  readable handle hhandle := hsound.exists_read hhandle
  expected command fault hfault := by
    rw [Holding.step_eq hsound hplain] at hfault
    have hkeeps := hsound.step_keeps command
    rwa [hfault] at hkeeps
  kept command reply after hstep handle hhandle := by
    rw [Holding.step_eq hsound hplain] at hstep
    have hkeeps := hsound.step_keeps command
    rw [hstep] at hkeeps
    obtain ⟨entry, hentry⟩ := hsound.owed.readable handle hhandle
    obtain ⟨container, hcontainer, hstored⟩ := entryAt_eq_some_iff.mp hentry
    obtain ⟨container', hcontainer', hages⟩ := hkeeps.2.1.ages _ container hcontainer
    have hheld := hsound.owed.references_ne_zero hhandle hentry
    obtain ⟨now, hnow, hbecomes⟩ := hages.held handle.key entry hstored hheld
    exact ⟨entry.toElement, now.toElement, Workspace.read_eq hentry,
      Workspace.read_eq (entryAt_eq_some_iff.mpr ⟨container', hcontainer', hnow⟩), hbecomes.id_eq,
      hbecomes.group_eq, hbecomes.data_eq⟩

namespace Holding

variable {start : C} {count : Nat}
  (hreached : ∀ commands : List (Command P E), (Workspace.reached start count commands).Sound)

include hreached

/-- Handle by handle, a run reaches the same workspace. -/
theorem reached_eq (commands : List (Command P E)) :
    reached start count commands = Workspace.reached start count commands := by
  have hplain := Search.hereditary_plain.reached hreached []
  exact congrArg Prod.snd (run_eq (hreached []) hplain commands)

theorem accounted (commands : List (Command P E)) : (reached start count commands).Accounted := by
  rw [reached_eq hreached]
  exact (hreached commands).accounted (Search.hereditary_plain.reached hreached commands)

end Holding

/-- Whatever is done to grammars, or to automata, with every handle made and dropped on its own, the
references are those of the holders. -/
theorem Holding.accounted_reached (A : Type) [DecidableEq A] (count : Nat) :
    (∀ commands : List (Command Grammar.Pattern (Grammar.Edit A)),
      (reached (Grammar.empty : Grammar A) count commands).Accounted) ∧
    ∀ commands : List (Command Automaton.Pattern (Automaton.Edit A)),
      (reached (Automaton.initial : Automaton A) count commands).Accounted := by
  constructor
  · intro commands
    exact accounted (Workspace.sound_grammars count) commands
  · intro commands
    exact accounted (Workspace.sound_automata count) commands

end Reached

end FormalLanguages
