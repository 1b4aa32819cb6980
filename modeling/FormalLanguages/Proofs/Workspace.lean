/-
# Everything that is kept is paid for

A workspace is sound if its containers are, if the references to every element are those of the
handles, matches and searches that are kept, and if every search that is kept can go on.  Keeping
and dropping something exchanges references, and so does keeping one thing in the place of another:
the handles of what comes are added to those that hold a reference, and the handles of what goes are
taken out.  A container may be replaced by one into which it has evolved.  All this leaves a sound
workspace.
-/

import FormalLanguages.Proofs.References
import FormalLanguages.Proofs.Table

namespace FormalLanguages

namespace Workspace

variable {C α P E : Type} [Container C α P E]

/-- A handle for each reference that something kept in the workspace has to an element. -/
def holders (workspace : Workspace C P) : List Handle :=
  workspace.handles.values ++ workspace.results.values.flatMap heldByMatch ++
    workspace.searches.values.flatMap Search.holds

/-- The handles of a workspace are those under one name and all others. -/
theorem holders_perm_handle (workspace : Workspace C P) (name : String) :
    workspace.holders.Perm ((workspace.handles.get? name).toList ++
      { workspace with handles := workspace.handles.erase name }.holders) := by
  simp only [holders, ← List.append_assoc]
  exact ((workspace.handles.values_perm name).append_right _).append_right _

/-- What matches refer to is what the match under one name refers to and all others. -/
theorem holders_perm_match (workspace : Workspace C P) (name : String) :
    workspace.holders.Perm ((workspace.results.get? name).toList.flatMap heldByMatch ++
      { workspace with results := workspace.results.erase name }.holders) := by
  have hperm := (workspace.results.values_perm name).flatMap_right heldByMatch
  rw [List.flatMap_append] at hperm
  simp only [holders, ← List.append_assoc]
  refine List.Perm.append_right _ ((hperm.append_left _).trans ?_)
  rw [← List.append_assoc]
  exact List.perm_append_comm.append_right _

/-- What searches refer to is what the search under one name refers to and all others. -/
theorem holders_perm_search (workspace : Workspace C P) (name : String) :
    workspace.holders.Perm ((workspace.searches.get? name).toList.flatMap Search.holds ++
      { workspace with searches := workspace.searches.erase name }.holders) := by
  have hperm := (workspace.searches.values_perm name).flatMap_right Search.holds
  rw [List.flatMap_append] at hperm
  apply (hperm.append_left _).trans
  rw [← List.append_assoc, holders, ← List.append_assoc]
  exact List.perm_append_comm.append_right _

/-- With a match put under a name, its element has one more holder than with none there. -/
theorem holders_insert_match (workspace : Workspace C P) (name : String) (found : Match) :
    { workspace with results := workspace.results.insert name found }.holders.Perm
      (heldByMatch found ++
        { workspace with results := workspace.results.erase name }.holders) := by
  simp only [holders, Table.values_insert, List.flatMap_cons, ← List.append_assoc]
  exact (List.perm_append_comm.append_right _).append_right _

theorem holders_insert_search (workspace : Workspace C P) (name : String) (search : Search P) :
    { workspace with searches := workspace.searches.insert name search }.holders.Perm
      (search.holds ++
        { workspace with searches := workspace.searches.erase name }.holders) := by
  simp only [holders, Table.values_insert, List.flatMap_cons]
  rw [← List.append_assoc, ← List.append_assoc]
  exact List.perm_append_comm.append_right _

/-- Putting a container in its own place changes nothing. -/
theorem replaced_self {containers : Array C} {number : Nat} {container : C}
    (hcontainer : containers[number]? = some container) :
    containers.setIfInBounds number container = containers := by
  apply Array.ext_getElem?
  intro other
  rw [getElem?_replaced hcontainer]
  split
  · next heq => rw [heq, hcontainer]
  · rfl

theorem setContainer_self {workspace : Workspace C P} {number : Nat} {container : C}
    (hcontainer : workspace.containers[number]? = some container) :
    workspace.setContainer number container = workspace := by
  rw [setContainer, replaced_self hcontainer]

variable [LawfulContainer C α P E]

/-- A workspace in which every command finds what it relies on. -/
structure Sound (workspace : Workspace C P) : Prop where
  containers : AllSound workspace.containers
  owed : Owed workspace.containers workspace.holders
  fit : ∀ name search, workspace.searches.get? name = some search →
    search.Fit workspace.containers.size

/-- A workspace after references were taken and given back, with the given searches. -/
structure Exchanged (workspace after : Workspace C P) (searches : Table String (Search P)) :
    Prop where
  sound : after.Sound
  recounted : Recounted workspace.containers after.containers
  searches_eq : after.searches = searches

/-- A workspace after a command, with the given searches. -/
structure Changed (workspace after : Workspace C P) (searches : Table String (Search P)) :
    Prop where
  sound : after.Sound
  aged : Aged workspace.containers after.containers
  searches_eq : after.searches = searches

variable {workspace after middle : Workspace C P} {searches : Table String (Search P)}
  {name : String} {handle : Handle} {found : Match} {search : Search P}

/-- A search that was written is the one under its name. -/
theorem get?_of_exchanged
    (hexchanged : workspace.Exchanged after (workspace.searches.insert name search)) :
    after.searches.get? name = some search := by
  rw [hexchanged.searches_eq, Table.get?_insert_self]

theorem Exchanged.changed (hexchanged : workspace.Exchanged after searches) :
    workspace.Changed after searches :=
  ⟨hexchanged.sound, hexchanged.recounted.aged, hexchanged.searches_eq⟩

theorem Changed.exchange (hchanged : workspace.Changed middle workspace.searches)
    (hexchanged : middle.Exchanged after searches) : workspace.Changed after searches :=
  ⟨hexchanged.sound, hchanged.aged.recount hexchanged.recounted, hexchanged.searches_eq⟩

theorem Exchanged.trans (hfirst : workspace.Exchanged middle searches)
    (hsecond : middle.Exchanged after middle.searches) : workspace.Exchanged after searches :=
  ⟨hsecond.sound, hfirst.recounted.trans hsecond.recounted,
    hsecond.searches_eq.trans hfirst.searches_eq⟩

namespace Sound

variable (hsound : workspace.Sound)

include hsound

theorem held (hsearch : workspace.searches.get? name = some search) :
    search.Held workspace.containers := by
  intro handle hhandle
  refine hsound.owed.readable handle (List.mem_append_right _ (List.mem_flatMap.mpr ?_))
  exact ⟨search, Table.mem_values_of_get? hsearch, hhandle⟩

theorem readable_of_handle (hhandle : workspace.handles.get? name = some handle) :
    Readable workspace.containers handle := by
  refine hsound.owed.readable handle (List.mem_append_left _ (List.mem_append_left _ ?_))
  exact Table.mem_values_of_get? hhandle

theorem readable_of_match (hfound : workspace.results.get? name = some found)
    (helement : found.element = some handle) : Readable workspace.containers handle := by
  refine hsound.owed.readable handle (List.mem_append_left _ (List.mem_append_right _ ?_))
  refine List.mem_flatMap.mpr ⟨found, Table.mem_values_of_get? hfound, ?_⟩
  simp [heldByMatch, helement]

theorem readable_of_current (hsearch : workspace.searches.get? name = some search)
    (helement : search.current.element = some handle) : Readable workspace.containers handle :=
  hsound.held hsearch handle (List.mem_append_left _ (by simp [helement]))

/-- Keeping other things in the place of those that are kept exchanges their references. -/
theorem exchange_spec (target : Workspace C P) (come : List Handle) {go rest : List Handle}
    (hgo : workspace.holders.Perm (go ++ rest)) (hcome : target.holders.Perm (come ++ rest))
    (hreadable : ∀ handle ∈ come, Readable workspace.containers handle)
    (hfit : ∀ name search, target.searches.get? name = some search →
      search.Fit workspace.containers.size) :
    ∃ containers, workspace.exchange come go = .ok { workspace with containers } ∧
      workspace.Exchanged { target with containers } target.searches := by
  obtain ⟨containers, hexchange, hall, howed, hrecounted⟩ :=
    Workspace.exchange_spec hsound.containers (hsound.owed.perm hgo) hreadable
  refine ⟨containers, hexchange, ⟨hall, ?_, ?_⟩, hrecounted, rfl⟩
  · exact howed.perm hcome.symm
  · intro name search hsearch
    exact hrecounted.size_eq ▸ hfit name search hsearch

theorem keepHandle_spec (name : String) (hreadable : Readable workspace.containers handle) :
    ∃ after, workspace.keepHandle name handle = .ok after ∧
      workspace.Exchanged after workspace.searches := by
  obtain ⟨containers, hexchange, hexchanged⟩ := hsound.exchange_spec
    { workspace with handles := workspace.handles.insert name handle } [handle]
    (workspace.holders_perm_handle name) (.refl _) (by simpa using hreadable) hsound.fit
  exact ⟨_, by simp only [keepHandle, hexchange, ok_bind, pure_eq_ok], hexchanged⟩

theorem dropHandle_spec (name : String) :
    ∃ after, workspace.dropHandle name = .ok ((workspace.handles.get? name).isSome, after) ∧
      workspace.Exchanged after workspace.searches := by
  obtain ⟨containers, hexchange, hexchanged⟩ := hsound.exchange_spec
    { workspace with handles := workspace.handles.erase name } []
    (workspace.holders_perm_handle name) (.refl _) (by simp) hsound.fit
  exact ⟨_, by simp only [dropHandle, hexchange, ok_bind, pure_eq_ok], hexchanged⟩

theorem keepMatch_spec (name : String) (hreadable : ∀ handle, found.element = some handle →
      Readable workspace.containers handle) :
    ∃ after, workspace.keepMatch name found = .ok after ∧
      workspace.Exchanged after workspace.searches := by
  obtain ⟨containers, hexchange, hexchanged⟩ := hsound.exchange_spec
    { workspace with results := workspace.results.insert name found } (heldByMatch found)
    (workspace.holders_perm_match name) (workspace.holders_insert_match name found)
    (fun handle hhandle => hreadable handle (Option.mem_toList.mp hhandle)) hsound.fit
  exact ⟨_, by simp only [keepMatch, hexchange, ok_bind, pure_eq_ok], hexchanged⟩

theorem dropMatch_spec (name : String) :
    ∃ after, workspace.dropMatch name = .ok ((workspace.results.get? name).isSome, after) ∧
      workspace.Exchanged after workspace.searches := by
  obtain ⟨containers, hexchange, hexchanged⟩ := hsound.exchange_spec
    { workspace with results := workspace.results.erase name } []
    (workspace.holders_perm_match name) (.refl _) (by simp) hsound.fit
  exact ⟨_, by simp only [dropMatch, hexchange, ok_bind, pure_eq_ok], hexchanged⟩

theorem keepSearch_spec (name : String) (hfit : search.Fit workspace.containers.size)
    (hheld : search.Held workspace.containers) :
    ∃ after, workspace.keepSearch name search = .ok after ∧
      workspace.Exchanged after (workspace.searches.insert name search) := by
  obtain ⟨containers, hexchange, hexchanged⟩ := hsound.exchange_spec
    { workspace with searches := workspace.searches.insert name search } search.holds
    (workspace.holders_perm_search name) (workspace.holders_insert_search name search) hheld
    fun other kept hkept => by
      rw [Table.get?_insert] at hkept
      split at hkept
      · cases hkept
        exact hfit
      · exact hsound.fit other kept hkept
  exact ⟨_, by simp only [keepSearch, hexchange, ok_bind, pure_eq_ok], hexchanged⟩

theorem dropSearch_spec (name : String) :
    ∃ after, workspace.dropSearch name = .ok ((workspace.searches.get? name).isSome, after) ∧
      workspace.Exchanged after (workspace.searches.erase name) := by
  obtain ⟨containers, hexchange, hexchanged⟩ := hsound.exchange_spec
    { workspace with searches := workspace.searches.erase name } []
    (workspace.holders_perm_search name) (.refl _) (by simp) fun other kept hkept => by
      rw [Table.get?_erase] at hkept
      split at hkept
      · cases hkept
      · exact hsound.fit other kept hkept
  exact ⟨_, by simp only [dropSearch, hexchange, ok_bind, pure_eq_ok], hexchanged⟩

/-- A container may be replaced by one into which it has evolved. -/
theorem replaced {number : Nat} {container : C} (now : C)
    (hcontainer : workspace.containers[number]? = some container)
    (hnow : LawfulContainer.Sound now)
    (hevolves : (Container.graph container).Evolves (Container.graph now)) :
    workspace.Changed (workspace.setContainer number now) workspace.searches where
  sound := by
    refine ⟨allSound_replaced hcontainer now hsound.containers hnow,
      hsound.owed.replaced hcontainer now hevolves, fun name search hsearch => ?_⟩
    exact (Array.size_setIfInBounds ..).symm ▸ hsound.fit name search hsearch
  aged := aged_replaced hcontainer now hevolves.ages
  searches_eq := rfl

/-- Elements of a container may be removed. -/
theorem removed {number : Nat} {container : C} {graph : Graph α}
    {doomed : Key → Element α → Bool}
    (hcontainer : workspace.containers[number]? = some container) (hgraph : graph.Sound)
    (hremoved : (Container.graph container).Removed graph doomed) :
    workspace.Changed (workspace.setContainer number (Container.setGraph container graph))
      workspace.searches := by
  refine hsound.replaced _ hcontainer
    (LawfulContainer.sound_setGraph (hsound.containers number container hcontainer) hgraph
      hremoved.persists) ?_
  rw [LawfulContainer.graph_setGraph]
  exact hremoved.evolves

/-- Patterns hold no references, so they may be kept and dropped at will. -/
theorem withPatterns (patterns : Table String (Shared P)) (serial : Nat) :
    workspace.Exchanged { workspace with patterns, serial } workspace.searches :=
  ⟨⟨hsound.containers, hsound.owed, hsound.fit⟩, .refl _, rfl⟩

end Sound

end Workspace

end FormalLanguages
