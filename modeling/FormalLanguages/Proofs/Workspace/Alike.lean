/-
# Workspaces that cannot be told apart

Two workspaces are alike if they keep the same handles, matches and patterns, and searches that
differ in their positions only, over containers that differ in their tombstones only.  A command
that adds no element gives the same answer in both and leaves them alike, and reclaiming a container
of one of the two leaves them alike as well.

What is kept may have other numbers of references in the two, because a search may be at a tombstone
in one of them that the other no longer stores.  No command shows these numbers.
-/

import FormalLanguages.Proofs.Search.Alike
import FormalLanguages.Proofs.Workspace.History

namespace FormalLanguages

variable {C α P E T : Type} [Container C α P E] [LawfulContainer C α P E]

/-- Whether a command is a reclaim. -/
def Command.isReclaim : Command P E → Bool
  | .reclaim _ => true
  | _ => false

theorem Command.eq_reclaim {command : Command P E} (hreclaim : command.isReclaim = true) :
    ∃ number, command = .reclaim number := by
  cases command with
  | reclaim number => exact ⟨number, rfl⟩
  | _ => cases hreclaim

/-- The commands that may add an element to a container. -/
def Command.Adds (C : Type) {α P E T : Type} [Container C α P E] [LawfulContainer C α P E]
    [Concealing C α P E T] : Command P E → Prop
  | .edit _ change _ => Concealing.Adds C change
  | _ => False

section Containers

variable {container now : C} {containers others after next : Array C}

theorem Counted.exists_before (hcounted : Counted containers after) {number : Nat}
    (hnow : after[number]? = some now) :
    ∃ container, containers[number]? = some container ∧ Counts container now := by
  have hlt := (Array.getElem?_eq_some_iff.mp hnow).1
  obtain ⟨container, hcontainer⟩ : ∃ container, containers[number]? = some container :=
    ⟨_, Array.getElem?_eq_getElem (hcounted.size_eq ▸ hlt)⟩
  obtain ⟨found, hfound, hcounts⟩ := hcounted.counts number container hcontainer
  cases hnow.symm.trans hfound
  exact ⟨container, hcontainer, hcounts⟩

theorem Counted.waned (hcounted : Counted containers after) : Waned containers after := by
  intro number container hcontainer
  obtain ⟨now, hnow, hcounts⟩ := hcounted.counts number container hcontainer
  have hrecounted := hcounts.recounted
  exact ⟨now, hnow, hrecounted.persists.wanes (Nat.le_of_eq hrecounted.toRelabeled.size_eq.symm)⟩

/-- What is stored after references were counted anew was stored before. -/
theorem Counted.kept (hcounted : Counted containers after) {handle : Handle}
    (hreadable : Readable after handle) : Kept containers after handle := by
  obtain ⟨entry', hentry'⟩ := hreadable
  obtain ⟨now, hnow, hstored⟩ := entryAt_eq_some_iff.mp hentry'
  obtain ⟨container, hcontainer, hcounts⟩ := hcounted.exists_before hnow
  obtain ⟨entry, hentry, heq⟩ := hcounts.recounted.exists_before hstored
  exact ⟨entry, entry', entryAt_eq_some_iff.mpr ⟨container, hcontainer, hentry⟩, hentry',
    .of_toElement_eq heq⟩

variable [Concealing C α P E T]

include T in
theorem Counts.tables_eq (hcounts : Counts container now) :
    Concealing.tables now = Concealing.tables container := by
  induction hcounts with
  | refl => rfl
  | step _ _ _ _ ih => exact (Concealing.tables_setGraph _ _).trans ih

theorem allTwins_refl (hall : AllSound containers) : AllTwins containers containers where
  size_eq := rfl
  twins number container other hcontainer hother := by
    cases hcontainer.symm.trans hother
    exact ⟨hall number container hcontainer, hall number container hcontainer, .refl _, rfl⟩

/-- Containers stay twins when references are counted anew in either of them. -/
theorem AllTwins.counted (htwins : AllTwins containers others)
    (hcounted : Counted containers after) (hcounted' : Counted others next) :
    AllTwins after next where
  size_eq := by rw [hcounted'.size_eq, htwins.size_eq, hcounted.size_eq]
  twins number now now' hnow hnow' := by
    obtain ⟨container, hcontainer, hcounts⟩ := hcounted.exists_before hnow
    obtain ⟨other, hother, hcounts'⟩ := hcounted'.exists_before hnow'
    have htwin := htwins.twins number container other hcontainer hother
    exact ⟨hcounted.sound number now hnow, hcounted'.sound number now' hnow',
      ((htwin.alike.recounted hcounts.recounted).symm.recounted hcounts'.recounted).symm,
      hcounts.tables_eq.trans (htwin.tables_eq.trans hcounts'.tables_eq.symm)⟩

/-- Containers stay twins when one of them and its twin are replaced by twins. -/
theorem AllTwins.replaced (htwins : AllTwins containers others) {number : Nat} {other now' : C}
    (hcontainer : containers[number]? = some container) (hother : others[number]? = some other)
    (hnow : Twins now now') :
    AllTwins (containers.setIfInBounds number now) (others.setIfInBounds number now') where
  size_eq := by rw [Array.size_setIfInBounds, Array.size_setIfInBounds, htwins.size_eq]
  twins place found found' hfound hfound' := by
    rw [getElem?_replaced hcontainer] at hfound
    rw [getElem?_replaced hother] at hfound'
    by_cases hplace : place = number
    · rw [if_pos hplace] at hfound hfound'
      cases hfound
      cases hfound'
      exact hnow
    · rw [if_neg hplace] at hfound hfound'
      exact htwins.twins place found found' hfound hfound'

omit [LawfulContainer C α P E] [Concealing C α P E T] in
/-- What is referred to stays stored while nothing is added. -/
theorem Waned.kept (hwaned : Waned containers after) {owed : List Handle}
    (howed : Owed containers owed) {handle : Handle} (hhandle : handle ∈ owed) :
    Kept containers after handle := by
  obtain ⟨entry, hentry⟩ := howed.readable handle hhandle
  obtain ⟨container, hcontainer, hstored⟩ := entryAt_eq_some_iff.mp hentry
  obtain ⟨now, hnow, hwanes⟩ := hwaned _ container hcontainer
  obtain ⟨entry', hentry', hbecomes⟩ :=
    hwanes.held handle.key entry hstored (howed.references_ne_zero hhandle hentry)
  exact ⟨entry, entry', hentry, entryAt_eq_some_iff.mpr ⟨now, hnow, hentry'⟩, hbecomes⟩

omit [LawfulContainer C α P E] [Concealing C α P E T] in
theorem waned_replaced {number : Nat} (hcontainer : containers[number]? = some container)
    (hwanes : (Container.graph container).Wanes (Container.graph now)) :
    Waned containers (containers.setIfInBounds number now) :=
  exists_replaced hcontainer now hwanes fun _ => .refl _

end Containers

omit [LawfulContainer C α P E] in
/-- Searches that are alike share their pattern. -/
theorem Search.Alike.searchesFor_eq {containers others : Array C} {search search' : Search P}
    (halike : search.Alike containers others search') (serial : Nat) :
    Workspace.searchesFor serial search = Workspace.searchesFor serial search' := by
  have hparallel {number : Nat} {axis axis' : Axis P} (progress : Progress) (current : Match)
      (hparallel : axis.Parallel axis') :
      Workspace.searchesFor serial (⟨some (number, axis), progress, current⟩ : Search P) =
        Workspace.searchesFor serial ⟨some (number, axis'), progress, current⟩ := by
    cases hparallel with
    | @along axis _ cursor cursor' => cases axis <;> rfl
    | groups offset offset' => rfl
    | terminals offset offset' => rfl
  cases halike with
  | unbound progress current => rfl
  | resting _ hparallel' => exact hparallel _ _ hparallel'
  | running _ _ habreast => exact hparallel _ _ habreast.parallel

namespace Workspace

variable [Concealing C α P E T] {workspace other after next : Workspace C P} {name : String}
  {handle : Handle} {found : Match} {search search' : Search P} {number : Nat}
  {container twin now now' : C}

/-- Workspaces that keep the same over containers that are twins, apart from the positions of
searches. -/
structure Alike (workspace other : Workspace C P) : Prop where
  sound : workspace.Sound
  sound' : other.Sound
  twins : AllTwins workspace.containers other.containers
  searches : workspace.searches.Matches (Search.Alike workspace.containers other.containers)
    other.searches
  handles_eq : workspace.handles = other.handles
  results_eq : workspace.results = other.results
  patterns_eq : workspace.patterns = other.patterns
  serial_eq : workspace.serial = other.serial

/-- Two answers that are the same, with workspaces that are alike. -/
def Same {β : Type} (result result' : β × Workspace C P) : Prop :=
  result.1 = result'.1 ∧ result.2.Alike result'.2

omit [Concealing C α P E T] in
theorem Sound.readable_of_holds (hsound : workspace.Sound)
    (hsearch : search ∈ workspace.searches.values) (hhandle : handle ∈ search.holds) :
    Readable workspace.containers handle :=
  hsound.owed.readable handle (List.mem_append_right _ (List.mem_flatMap_of_mem hsearch hhandle))

theorem Sound.alike (hsound : workspace.Sound) : workspace.Alike workspace where
  sound := hsound
  sound' := hsound
  twins := allTwins_refl hsound.containers
  searches := Table.matches_refl fun name search hsearch =>
    Search.alike_refl (hsound.fit name search hsearch)
  handles_eq := rfl
  results_eq := rfl
  patterns_eq := rfl
  serial_eq := rfl

namespace Alike

variable (halike : workspace.Alike other)

include halike

theorem symm : other.Alike workspace where
  sound := halike.sound'
  sound' := halike.sound
  twins := halike.twins.symm
  searches := halike.searches.symm fun _ _ hkept => hkept.symm halike.twins
  handles_eq := halike.handles_eq.symm
  results_eq := halike.results_eq.symm
  patterns_eq := halike.patterns_eq.symm
  serial_eq := halike.serial_eq.symm

/-- Workspaces stay alike when the same is kept in both, and references are counted anew. -/
theorem counted (hafter : after.Sound) (hnext : next.Sound)
    (hcounted : Counted workspace.containers after.containers)
    (hcounted' : Counted other.containers next.containers)
    (hsearches : after.searches.Matches (Search.Alike workspace.containers other.containers)
      next.searches)
    (hhandles : after.handles = next.handles) (hresults : after.results = next.results)
    (hpatterns : after.patterns = next.patterns) (hserial : after.serial = next.serial) :
    after.Alike next where
  sound := hafter
  sound' := hnext
  twins := halike.twins.counted hcounted hcounted'
  searches := hsearches.imp fun _ hsearch _ hsearch' hkept =>
    hkept.carry halike.twins hcounted.sound hcounted.waned hcounted'.waned
      (fun _ hhandle => hcounted.kept (hafter.readable_of_holds hsearch hhandle))
      (fun _ hhandle => hcounted'.kept (hnext.readable_of_holds hsearch' hhandle))
  handles_eq := hhandles
  results_eq := hresults
  patterns_eq := hpatterns
  serial_eq := hserial

/-- Workspaces stay alike when a container and its twin are replaced by twins, and nothing is
added. -/
theorem replaced (hcontainer : workspace.containers[number]? = some container)
    (htwin : other.containers[number]? = some twin) (hnow : Twins now now')
    (hwanes : (Container.graph container).Wanes (Container.graph now))
    (hwanes' : (Container.graph twin).Wanes (Container.graph now'))
    (hafter : (workspace.setContainer number now).Sound)
    (hnext : (other.setContainer number now').Sound) :
    (workspace.setContainer number now).Alike (other.setContainer number now') where
  sound := hafter
  sound' := hnext
  twins := halike.twins.replaced hcontainer htwin hnow
  searches := by
    have hwaned := waned_replaced hcontainer hwanes
    have hwaned' := waned_replaced htwin hwanes'
    have hkept {workspace : Workspace C P} {containers : Array C} (hsound : workspace.Sound)
        (hwaned : Waned workspace.containers containers) {search : Search P}
        (hsearch : search ∈ workspace.searches.values) (handle : Handle)
        (hhandle : handle ∈ search.holds) : Kept workspace.containers containers handle :=
      hwaned.kept hsound.owed
        (List.mem_append_right _ (List.mem_flatMap_of_mem hsearch hhandle))
    exact halike.searches.imp fun _ hsearch _ hsearch' hkept' =>
      hkept'.carry halike.twins hafter.containers hwaned hwaned'
        (hkept halike.sound hwaned hsearch) (hkept halike.sound' hwaned' hsearch')
  handles_eq := halike.handles_eq
  results_eq := halike.results_eq
  patterns_eq := halike.patterns_eq
  serial_eq := halike.serial_eq

theorem keepHandle (name : String) (hreadable : Readable workspace.containers handle)
    (hreadable' : Readable other.containers handle) :
    Agree Alike (workspace.keepHandle name handle) (other.keepHandle name handle) := by
  obtain ⟨after, hkeep, hexchanged⟩ := halike.sound.keepHandle_spec name hreadable
  obtain ⟨next, hkeep', hexchanged'⟩ := halike.sound'.keepHandle_spec name hreadable'
  rw [hkeep, hkeep']
  obtain ⟨containers, hcounted, rfl⟩ := keepHandle_counted halike.sound.containers hkeep
  obtain ⟨others, hcounted', rfl⟩ := keepHandle_counted halike.sound'.containers hkeep'
  exact .ok (halike.counted hexchanged.sound hexchanged'.sound hcounted hcounted' halike.searches
    (by simp only [halike.handles_eq]) halike.results_eq halike.patterns_eq halike.serial_eq)

theorem dropHandle (name : String) :
    Agree Same (workspace.dropHandle name) (other.dropHandle name) := by
  obtain ⟨after, hdrop, hexchanged⟩ := halike.sound.dropHandle_spec name
  obtain ⟨next, hdrop', hexchanged'⟩ := halike.sound'.dropHandle_spec name
  rw [hdrop, hdrop']
  obtain ⟨containers, hcounted, rfl⟩ := dropHandle_counted halike.sound.containers hdrop
  obtain ⟨others, hcounted', rfl⟩ := dropHandle_counted halike.sound'.containers hdrop'
  refine .ok ⟨by rw [halike.handles_eq], ?_⟩
  exact halike.counted hexchanged.sound hexchanged'.sound hcounted hcounted' halike.searches
    (by simp only [halike.handles_eq]) halike.results_eq halike.patterns_eq halike.serial_eq

theorem keepMatch (name : String)
    (hreadable : ∀ handle, found.element = some handle → Readable workspace.containers handle)
    (hreadable' : ∀ handle, found.element = some handle → Readable other.containers handle) :
    Agree Alike (workspace.keepMatch name found) (other.keepMatch name found) := by
  obtain ⟨after, hkeep, hexchanged⟩ := halike.sound.keepMatch_spec name hreadable
  obtain ⟨next, hkeep', hexchanged'⟩ := halike.sound'.keepMatch_spec name hreadable'
  rw [hkeep, hkeep']
  obtain ⟨containers, hcounted, rfl⟩ := keepMatch_counted halike.sound.containers hkeep
  obtain ⟨others, hcounted', rfl⟩ := keepMatch_counted halike.sound'.containers hkeep'
  exact .ok (halike.counted hexchanged.sound hexchanged'.sound hcounted hcounted' halike.searches
    halike.handles_eq (by simp only [halike.results_eq]) halike.patterns_eq halike.serial_eq)

theorem dropMatch (name : String) :
    Agree Same (workspace.dropMatch name) (other.dropMatch name) := by
  obtain ⟨after, hdrop, hexchanged⟩ := halike.sound.dropMatch_spec name
  obtain ⟨next, hdrop', hexchanged'⟩ := halike.sound'.dropMatch_spec name
  rw [hdrop, hdrop']
  obtain ⟨containers, hcounted, rfl⟩ := dropMatch_counted halike.sound.containers hdrop
  obtain ⟨others, hcounted', rfl⟩ := dropMatch_counted halike.sound'.containers hdrop'
  refine .ok ⟨by rw [halike.results_eq], ?_⟩
  exact halike.counted hexchanged.sound hexchanged'.sound hcounted hcounted' halike.searches
    halike.handles_eq (by simp only [halike.results_eq]) halike.patterns_eq halike.serial_eq

theorem keepSearch (name : String)
    (hpartners : search.Partners workspace.containers other.containers search') :
    Agree (fun after next => after.Alike next ∧ after.searches.get? name = some search ∧
      next.searches.get? name = some search')
      (workspace.keepSearch name search) (other.keepSearch name search') := by
  obtain ⟨after, hkeep, hexchanged⟩ :=
    halike.sound.keepSearch_spec name hpartners.fit hpartners.held
  obtain ⟨next, hkeep', hexchanged'⟩ :=
    halike.sound'.keepSearch_spec name hpartners.fit' hpartners.held'
  rw [hkeep, hkeep']
  obtain ⟨containers, hcounted, rfl⟩ := keepSearch_counted halike.sound.containers hkeep
  obtain ⟨others, hcounted', rfl⟩ := keepSearch_counted halike.sound'.containers hkeep'
  refine .ok ⟨?_, by simp [Table.get?_insert], by simp [Table.get?_insert]⟩
  exact halike.counted hexchanged.sound hexchanged'.sound hcounted hcounted'
    (halike.searches.insert name hpartners.alike) halike.handles_eq halike.results_eq
    halike.patterns_eq halike.serial_eq

theorem dropSearch (name : String) :
    Agree Same (workspace.dropSearch name) (other.dropSearch name) := by
  obtain ⟨after, hdrop, hexchanged⟩ := halike.sound.dropSearch_spec name
  obtain ⟨next, hdrop', hexchanged'⟩ := halike.sound'.dropSearch_spec name
  rw [hdrop, hdrop']
  obtain ⟨containers, hcounted, rfl⟩ := dropSearch_counted halike.sound.containers hdrop
  obtain ⟨others, hcounted', rfl⟩ := dropSearch_counted halike.sound'.containers hdrop'
  refine .ok ⟨?_, ?_⟩
  · rcases halike.searches.get? name with ⟨hnone, hnone'⟩ | ⟨search, search', hsome, hsome', -⟩
    · rw [hnone, hnone']
    · rw [hsome, hsome']
      rfl
  · exact halike.counted hexchanged.sound hexchanged'.sound hcounted hcounted'
      (halike.searches.erase name) halike.handles_eq halike.results_eq halike.patterns_eq
      halike.serial_eq

/-- Patterns hold no references. -/
theorem withPatterns {patterns patterns' : Table String (Shared P)} {serial serial' : Nat}
    (hpatterns : patterns = patterns') (hserial : serial = serial') :
    Alike { workspace with patterns, serial }
      { other with patterns := patterns', serial := serial' } where
  sound := (halike.sound.withPatterns patterns serial).sound
  sound' := (halike.sound'.withPatterns patterns' serial').sound
  twins := halike.twins
  searches := halike.searches
  handles_eq := halike.handles_eq
  results_eq := halike.results_eq
  patterns_eq := hpatterns
  serial_eq := hserial

/-- What is asked of a name or a number that is not in use ends in the same fault. -/
theorem container_agree (number : Nat) :
    Agree (fun container twin => workspace.containers[number]? = some container ∧
      other.containers[number]? = some twin) (workspace.container number)
      (other.container number) := by
  rcases workspace.container_eq number with ⟨container, hcontainer, heq⟩ | heq
  · obtain ⟨twin, htwin, -⟩ := halike.twins.exists_other hcontainer
    have heq' : other.container number = .ok twin := containerAt_eq htwin
    rw [heq, heq']
    exact .ok ⟨hcontainer, htwin⟩
  · rcases other.container_eq number with ⟨twin, htwin, heq'⟩ | heq'
    · obtain ⟨container, hcontainer, -⟩ := halike.twins.symm.exists_other htwin
      rw [Workspace.container, containerAt_eq hcontainer] at heq
      cases heq
    · rw [heq, heq']
      exact .error _

theorem search_agree (name : String) :
    Agree (Search.Partners workspace.containers other.containers)
      (register workspace.searches name) (register other.searches name) := by
  rcases halike.searches.get? name with ⟨hnone, hnone'⟩ | ⟨search, search', hsome, hsome', hkept⟩
  · simp only [register, hnone, hnone']
    exact .error _
  · rw [register_of_get? hsome, register_of_get? hsome']
    exact .ok ⟨hkept, halike.sound.fit name search hsome, halike.sound'.fit name search' hsome',
      halike.sound.held hsome, halike.sound'.held hsome'⟩

/-- A new search is along the same axis in both. -/
theorem axisOf (query : Query P) :
    Agree (fun result result' => result.1 = result'.1 ∧ result.1.cursor = none ∧
      result.2.Alike result'.2 ∧ result.2.containers = workspace.containers)
      (workspace.axisOf query) (other.axisOf query) := by
  cases query with
  | elements => exact .ok ⟨rfl, rfl, halike, rfl⟩
  | groups => exact .ok ⟨rfl, rfl, halike, rfl⟩
  | terminals => exact .ok ⟨rfl, rfl, halike, rfl⟩
  | matching pattern =>
      refine .ok ⟨by rw [halike.serial_eq], rfl, ?_, rfl⟩
      exact halike.withPatterns halike.patterns_eq (congrArg (· + 1) halike.serial_eq)
  | sharing name =>
      simp only [Workspace.axisOf, ← halike.patterns_eq]
      rcases register_eq workspace.patterns name with ⟨shared, -, hregister⟩ | hregister
      · rw [hregister]
        exact .ok ⟨rfl, rfl, halike, rfl⟩
      · rw [hregister]
        exact .error _

/-- A search that has just been made has a partner along the same axis. -/
theorem partners_along (hcontainer : workspace.containers[number]? = some container)
    {axis : Axis P} (hcursor : axis.cursor = none) :
    (Search.along number axis).Partners workspace.containers other.containers
      (.along number axis) := by
  obtain ⟨twin, htwin, -⟩ := halike.twins.exists_other hcontainer
  exact ⟨.resting (by simp) (axis.abreast_refl container).parallel,
    Search.fit_along hcontainer axis, Search.fit_along htwin axis, Search.held_along hcursor,
    Search.held_along hcursor⟩

/-- A change that adds no element gives the same answer in both. -/
theorem edit {change : E} (hadds : ¬Concealing.Adds C change) (number : Nat)
    (keep : Option String) :
    Agree Same (workspace.edit number change keep) (other.edit number change keep) := by
  refine (halike.container_agree number).bind fun container twin ⟨hcontainer, htwin⟩ => ?_
  have htwins := halike.twins.twins number container twin hcontainer htwin
  obtain ⟨answer, now, now', hedit, hedit', hnow, htables, hwanes, hwanes', hanswer⟩ :=
    Concealing.edit_alike htwins.sound htwins.sound' htwins.alike htwins.tables_eq hadds
  have hedited := edited_of_edit_eq_ok htwins.sound hedit
  have hedited' := edited_of_edit_eq_ok htwins.sound' hedit'
  have hafter := halike.replaced hcontainer htwin ⟨hedited.sound, hedited'.sound, hnow, htables⟩
    hwanes hwanes' (halike.sound.replaced now hcontainer hedited.sound hedited.evolves).sound
    (halike.sound'.replaced now' htwin hedited'.sound hedited'.evolves).sound
  rw [hedit, hedit']
  cases answer with
  | element key => exact absurd rfl (hanswer key)
  | _ => exact .ok ⟨rfl, hafter⟩

/-- Removing an element tells in both whether it was live. -/
theorem remove (number : Nat) (hreadable : Readable workspace.containers handle)
    (hreadable' : Readable other.containers handle) :
    Agree Same (workspace.remove number handle) (other.remove number handle) := by
  refine (halike.container_agree number).bind fun container twin ⟨hcontainer, htwin⟩ => ?_
  have htwins := halike.twins.twins number container twin hcontainer htwin
  by_cases hforeign : handle.container = number
  · subst hforeign
    obtain ⟨entry, hentry⟩ := hreadable
    obtain ⟨entry', hentry'⟩ := hreadable'
    rw [entryAt_eq hcontainer] at hentry
    rw [entryAt_eq htwin] at hentry'
    obtain ⟨graph, hremove, hgraph, hremoved⟩ :=
      Graph.remove_removed (LawfulContainer.graph_sound htwins.sound) hentry
    obtain ⟨graph', hremove', hgraph', hremoved'⟩ :=
      Graph.remove_removed (LawfulContainer.graph_sound htwins.sound') hentry'
    have hdeleted : entry'.deleted = entry.deleted :=
      congrArg Element.deleted (htwins.alike.toElement_eq hentry hentry')
    have hnow : Twins (Container.setGraph container graph) (Container.setGraph twin graph') := by
      refine ⟨LawfulContainer.sound_setGraph htwins.sound hgraph hremoved.persists,
        LawfulContainer.sound_setGraph htwins.sound' hgraph' hremoved'.persists, ?_, ?_⟩
      · rw [LawfulContainer.graph_setGraph, LawfulContainer.graph_setGraph]
        exact htwins.alike.removed hremoved hremoved'
      · rw [Concealing.tables_setGraph, Concealing.tables_setGraph, htwins.tables_eq]
    simp only [ne_eq, not_true_eq_false, ↓reduceIte, hremove, hremove', ok_bind, pure_eq_ok]
    refine .ok ⟨by rw [hdeleted], halike.replaced hcontainer htwin hnow ?_ ?_
      (halike.sound.removed hcontainer hgraph hremoved).sound
      (halike.sound'.removed htwin hgraph' hremoved').sound⟩
    · rw [LawfulContainer.graph_setGraph]
      exact hremoved.wanes
    · rw [LawfulContainer.graph_setGraph]
      exact hremoved'.wanes
  · simp only [ne_eq, hforeign, not_false_eq_true, ↓reduceIte, htwins.alike.nextId_eq]
    exact .error _

theorem newSearch (target : Option (Nat × Query P)) (keep : String) :
    Agree Alike (workspace.newSearch target keep) (other.newSearch target keep) := by
  have hkeep {after next : Workspace C P} {search search' : Search P} (halike : after.Alike next)
      (hpartners : search.Partners after.containers next.containers search') :
      Agree Alike (after.keepSearch keep search) (next.keepSearch keep search') :=
    (halike.keepSearch keep hpartners).imp fun _ _ hafter => hafter.1
  cases target with
  | none =>
      have hheld (containers : Array C) : (Search.unbound : Search P).Held containers :=
        fun _ hhandle => by cases hhandle
      exact hkeep halike ⟨.unbound .unstarted .empty, Search.fit_unbound _, Search.fit_unbound _,
        hheld _, hheld _⟩
  | some target =>
      obtain ⟨number, query⟩ := target
      refine (halike.container_agree number).bind fun container twin ⟨hcontainer, _⟩ => ?_
      refine (halike.axisOf query).bind ?_
      rintro ⟨axis, after⟩ ⟨axis', next⟩ ⟨rfl, hcursor, hafter, hcontainers⟩
      have hfound : after.containers[number]? = some container := hcontainers ▸ hcontainer
      exact hkeep hafter (hafter.partners_along hfound hcursor)

theorem takeElement (keep : String)
    (hreadable : ∀ handle, found.element = some handle → Readable workspace.containers handle)
    (hreadable' : ∀ handle, found.element = some handle → Readable other.containers handle) :
    Agree Same (workspace.takeElement found keep) (other.takeElement found keep) := by
  cases helement : found.element with
  | none =>
      simp only [Workspace.takeElement, helement]
      exact .ok ⟨rfl, halike⟩
  | some handle =>
      simp only [Workspace.takeElement, helement]
      exact (halike.keepHandle keep (hreadable handle helement) (hreadable' handle helement)).bind
        fun _ _ hafter => .ok ⟨rfl, hafter⟩

theorem handle_agree (name : String) :
    Agree (fun handle handle' => handle = handle' ∧ Readable workspace.containers handle ∧
      Readable other.containers handle)
      (register workspace.handles name) (register other.handles name) := by
  rw [← halike.handles_eq]
  rcases register_eq workspace.handles name with ⟨handle, hhandle, hregister⟩ | hregister
  · rw [hregister]
    exact .ok ⟨rfl, halike.sound.readable_of_handle hhandle,
      halike.sound'.readable_of_handle (halike.handles_eq ▸ hhandle)⟩
  · rw [hregister]
    exact .error _

theorem match_agree (name : String) :
    Agree (fun found found' => found = found' ∧ ∀ handle, found.element = some handle →
      Readable workspace.containers handle ∧ Readable other.containers handle)
      (register workspace.results name) (register other.results name) := by
  rw [← halike.results_eq]
  rcases register_eq workspace.results name with ⟨found, hfound, hregister⟩ | hregister
  · rw [hregister]
    exact .ok ⟨rfl, fun handle helement => ⟨halike.sound.readable_of_match hfound helement,
      halike.sound'.readable_of_match (halike.results_eq ▸ hfound) helement⟩⟩
  · rw [hregister]
    exact .error _

omit halike in
/-- What is answered from equal results is equal. -/
theorem answer {β : Type} {reply : β → Reply} {first second : Except Fault (β × Workspace C P)}
    (hsame : Agree Same first second) :
    Agree Same (first >>= fun result => .ok (reply result.1, result.2))
      (second >>= fun result => .ok (reply result.1, result.2)) :=
  hsame.bind fun _ _ hresult => .ok ⟨congrArg reply hresult.1, hresult.2⟩

omit halike in
theorem done {reply : Reply} {first second : Except Fault (Workspace C P)}
    (halike : Agree Alike first second) :
    Agree Same (first >>= fun after => .ok (reply, after))
      (second >>= fun after => .ok (reply, after)) :=
  halike.bind fun _ _ hafter => .ok ⟨rfl, hafter⟩

/-- Keeping partners under a name leaves workspaces alike. -/
theorem kept {reply : Reply} (name : String) {search search' : Search P}
    (hpartners : search.Partners workspace.containers other.containers search') :
    Agree Same (workspace.keepSearch name search >>= fun after => .ok (reply, after))
      (other.keepSearch name search' >>= fun after => .ok (reply, after)) :=
  done ((halike.keepSearch name hpartners).imp fun _ _ hafter => hafter.1)

theorem step_matchNext (name : String) :
    Agree Same (workspace.step (.matchNext name : Command P E))
      (other.step (.matchNext name : Command P E)) := by
  refine (halike.search_agree name).bind fun search search' hpartners => ?_
  obtain ⟨found, next, next', hnext, hnext', hbehind⟩ := hpartners.matchNext halike.twins
  rw [hnext, hnext']
  exact halike.kept name hbehind

theorem step_rewind (name : String) :
    Agree Same (workspace.step (.rewind name : Command P E))
      (other.step (.rewind name : Command P E)) := by
  refine (halike.search_agree name).bind fun search search' hpartners => ?_
  obtain ⟨next, next', hnext, hnext', hbehind, -⟩ := hpartners.rewind halike.twins
  rw [hnext, hnext']
  exact halike.kept name hbehind

/-- The copy of a match that is kept is the same in both. -/
theorem step_next (name : String) (keep : Option String) :
    Agree Same (workspace.step (.next name keep : Command P E))
      (other.step (.next name keep : Command P E)) := by
  refine (halike.search_agree name).bind fun search search' hpartners => ?_
  obtain ⟨found, next, next', hnext, hnext', hbehind⟩ := hpartners.matchNext halike.twins
  rw [hnext, hnext']
  refine (halike.keepSearch name hbehind).bind ?_
  rintro after after' ⟨hafter, hkept, hkept'⟩
  have hcurrent := hbehind.alike.current_eq
  cases found with
  | error fault => exact .ok ⟨rfl, hafter⟩
  | ok found =>
      cases found with
      | false => exact .ok ⟨rfl, hafter⟩
      | true =>
          cases keep with
          | none => exact .ok ⟨by rw [hcurrent], hafter⟩
          | some keep =>
              dsimp only
              rw [← hcurrent]
              exact done (hafter.keepMatch keep
                (fun _ => hafter.sound.readable_of_current hkept)
                (fun _ => hcurrent ▸ hafter.sound'.readable_of_current hkept'))

theorem step_drain (name : String) (limit : Option Nat) :
    Agree Same (workspace.step (.drain name limit : Command P E))
      (other.step (.drain name limit : Command P E)) := by
  refine (halike.search_agree name).bind fun search search' hpartners => ?_
  obtain ⟨rows, last, last', htake, htake', hbehind⟩ := hpartners.takeUpTo halike.twins limit
  rw [htake, htake']
  exact halike.kept name hbehind

theorem step_assignSearch (target source : String) :
    Agree Same (workspace.step (.assignSearch target source : Command P E))
      (other.step (.assignSearch target source : Command P E)) := by
  refine (halike.search_agree target).bind fun search search' htarget => ?_
  refine (halike.search_agree source).bind fun copied copied' hpartners => ?_
  rw [htarget.alike.isBound_eq, hpartners.alike.isBound_eq]
  cases search'.isBound with
  | true => exact .error _
  | false => exact halike.kept target hpartners.copy

theorem step_takeFromSearch (source keep : String) :
    Agree Same (workspace.step (.takeFromSearch source keep : Command P E))
      (other.step (.takeFromSearch source keep : Command P E)) := by
  rcases halike.searches.get? source with
    ⟨hnone, hnone'⟩ | ⟨search, search', hsearch, hsearch', hkept⟩
  · simp only [Workspace.step, register, hnone, hnone', error_bind]
    exact .error _
  · simp only [Workspace.step, register_of_get? hsearch, register_of_get? hsearch', ok_bind,
      ← hkept.current_eq]
    exact halike.takeElement keep (fun _ => halike.sound.readable_of_current hsearch)
      (fun _ => hkept.current_eq ▸ halike.sound'.readable_of_current hsearch')

/-- A command that neither adds an element nor reclaims a container gives the same answer in both,
and leaves them alike. -/
theorem step {command : Command P E} (hadds : ¬command.Adds C)
    (hreclaim : command.isReclaim = false) :
    Agree Same (workspace.step command) (other.step command) := by
  cases command with
  | edit number change keep => exact answer (halike.edit hadds number keep)
  | remove number name =>
      refine (halike.handle_agree name).bind ?_
      rintro handle _ ⟨rfl, hreadable, hreadable'⟩
      exact answer (halike.remove number hreadable hreadable')
  | reclaim number => cases hreclaim
  | copyHandle source keep =>
      refine (halike.handle_agree source).bind ?_
      rintro handle _ ⟨rfl, hreadable, hreadable'⟩
      exact done (halike.keepHandle keep hreadable hreadable')
  | assignHandle target source =>
      refine (halike.handle_agree target).bind fun _ _ _ => (halike.handle_agree source).bind ?_
      rintro handle _ ⟨rfl, hreadable, hreadable'⟩
      exact done (halike.keepHandle target hreadable hreadable')
  | dropHandle name => exact answer (halike.dropHandle name)
  | search target keep => exact done (halike.newSearch target keep)
  | matchNext name => exact halike.step_matchNext name
  | rewind name => exact halike.step_rewind name
  | next name keep => exact halike.step_next name keep
  | drain name limit => exact halike.step_drain name limit
  | copySearch source keep =>
      exact (halike.search_agree source).bind fun _ _ hpartners => halike.kept keep hpartners.copy
  | assignSearch target source => exact halike.step_assignSearch target source
  | dropSearch name => exact answer (halike.dropSearch name)
  | takeFromSearch source keep => exact halike.step_takeFromSearch source keep
  | takeFromMatch source keep =>
      refine (halike.match_agree source).bind ?_
      rintro found _ ⟨rfl, hreadable⟩
      exact halike.takeElement keep (fun handle helement => (hreadable handle helement).1)
        (fun handle helement => (hreadable handle helement).2)
  | copyMatch source keep =>
      refine (halike.match_agree source).bind ?_
      rintro found _ ⟨rfl, hreadable⟩
      exact done (halike.keepMatch keep (fun handle helement => (hreadable handle helement).1)
        (fun handle helement => (hreadable handle helement).2))
  | dropMatch name => exact answer (halike.dropMatch name)
  | keepPattern pattern keep =>
      refine .ok ⟨rfl, halike.withPatterns ?_ (congrArg (· + 1) halike.serial_eq)⟩
      rw [halike.patterns_eq, halike.serial_eq]
  | dropPattern name =>
      refine .ok ⟨?_, halike.withPatterns ?_ halike.serial_eq⟩
      · rw [halike.patterns_eq]
      · rw [halike.patterns_eq]

end Alike

end Workspace

end FormalLanguages
