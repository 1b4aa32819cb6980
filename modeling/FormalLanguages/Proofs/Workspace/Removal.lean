/-
# What a search finds is removed row by row

Whoever wants to remove all that a search finds goes through its rows, keeps a handle to the element
of each and removes it: at once, while the search is already positioned at what follows, or when all
rows are there.  In between the handles and the search hold references, which come and go.  Once
they are dropped again the outcome is the same to the last reference count, and the same as if the
elements had been removed in one go: nothing more is kept than before, and what is kept settles the
counts.
-/

import FormalLanguages.Proofs.Search.Drain
import FormalLanguages.Proofs.Workspace.History
import FormalLanguages.Proofs.Workspace.Settling

namespace FormalLanguages

variable {C α P E : Type} [Container C α P E]

/-- Go through the rows of a search, keep a handle to the element of each, under one name after the
other, and remove it at once. -/
def Command.sifting (number : Nat) (search : String) : List String → List (Command P E)
  | [] => [.next search none]
  | name :: rest =>
      .next search none :: .takeFromSearch search name :: .remove number name ::
        sifting number search rest

/-- Go through the rows of a search, and keep a handle to the element of each under one name after
the other. -/
def Command.gathering (search : String) : List String → List (Command P E)
  | [] => [.next search none]
  | name :: rest => .next search none :: .takeFromSearch search name :: gathering search rest

/-- Drop handles, and a search. -/
def Command.dropping (search : String) (names : List String) : List (Command P E) :=
  names.map .dropHandle ++ [.dropSearch search]

/-- What going through rows answers if the element of each was live until it was removed. -/
def Reply.sifted : List Match → List (Except Fault Reply)
  | [] => [.ok (.row none)]
  | found :: rest =>
      .ok (.row (some found)) :: .ok (.handle found.element) :: .ok (.flag true) :: sifted rest

/-- What going through rows answers. -/
def Reply.gathered : List Match → List (Except Fault Reply)
  | [] => [.ok (.row none)]
  | found :: rest => .ok (.row (some found)) :: .ok (.handle found.element) :: gathered rest

variable [LawfulContainer C α P E] [Uncounting C α P E] {container now : C} {number : Nat}
  {axis : Axis P} {search : Search P} {found : List (Key × Slots)}

/-- Counting references does not change what a search is to find. -/
theorem Search.Pending.counted (hpending : search.Pending container number axis found)
    (hcounts : Counts container now) : search.Pending now number axis found := by
  cases hpending with
  | unstarted hstart hfinds =>
      refine .unstarted ?_ (hfinds.recounted hcounts.recounted)
      rw [← Axis.start_uncounted, hcounts.uncounted_eq, Axis.start_uncounted]
      exact hstart
  | running hfinds => exact .running (hfinds.recounted hcounts.recounted)

/-- Whatever graph it is given, only the graph of a container in which references were counted anew
differs from before. -/
theorem Counts.setGraph_eq (hcounts : Counts container now) (graph : Graph α) :
    Container.setGraph now graph = Container.setGraph container graph := by
  induction hcounts with
  | refl => rfl
  | step _ _ _ _ ih => rw [Uncounting.setGraph_setGraph, ih]

namespace Workspace

variable {workspace : Workspace C P} {name : String} {names : List String}

/-- Removing the elements under the keys, and counting them, leaves the containers but for their
reference counts. -/
def Removes (containers : Array C) (number : Nat) (container : C) (keys : List Key)
    (after : Array C) : Prop :=
  ∃ graph, (Container.graph container).removeAll keys = .ok (keys.length, graph) ∧
    after.map Container.uncounted =
      (containers.setIfInBounds number (Container.setGraph container graph)).map
        Container.uncounted

theorem uncounted_setGraph (container : C) (graph : Graph α) :
    Container.uncounted (Container.setGraph container graph) =
      Container.setGraph container graph.uncounted := by
  rw [Container.uncounted, LawfulContainer.graph_setGraph, Uncounting.setGraph_setGraph]

/-- Counting references removes nothing. -/
theorem removes_nil {containers after : Array C}
    (hcontainer : containers[number]? = some container) (hcounted : Counted containers after) :
    Removes containers number container [] after := by
  refine ⟨Container.graph container, rfl, ?_⟩
  rw [Uncounting.setGraph_graph, replaced_self hcontainer, hcounted.uncounted_eq]

/-- Counting references first removes the same. -/
theorem Removes.counted {containers middle after : Array C} {keys : List Key}
    (hremoves : Removes middle number now keys after) (hcounted : Counted containers middle)
    (hcounts : Counts container now) : Removes containers number container keys after := by
  have ⟨removed, hremove, hafter⟩ := hremoves
  have huncounted : (Container.graph container).uncounted = (Container.graph now).uncounted := by
    rw [← graph_uncounted, ← graph_uncounted, hcounts.uncounted_eq]
  have ⟨final, hfinal, hsame⟩ := Graph.removeAll_congr huncounted hremove
  refine ⟨final, hfinal, ?_⟩
  rw [hafter, Array.map_setIfInBounds, Array.map_setIfInBounds, hcounted.uncounted_eq,
    uncounted_setGraph, uncounted_setGraph, hcounts.setGraph_eq, hsame]

/-- Removing one element and then others removes them all. -/
theorem Removes.cons {containers after : Array C} {key : Key} {keys : List Key} {graph : Graph α}
    (hremoves : Removes (containers.setIfInBounds number (Container.setGraph container graph))
      number (Container.setGraph container graph) keys after)
    (hremove : (Container.graph container).remove key = .ok (true, graph)) :
    Removes containers number container (key :: keys) after := by
  have ⟨removed, hrest, hafter⟩ := hremoves
  rw [LawfulContainer.graph_setGraph] at hrest
  refine ⟨removed, ?_, ?_⟩
  · simp [Graph.removeAll, hremove, hrest]
  · rw [hafter, Array.setIfInBounds_setIfInBounds, Uncounting.setGraph_setGraph]

namespace Sound

variable (hsound : workspace.Sound) (haxis : axis.AlongElements) (hfits : ¬axis.Overruns C)
  (hcontainer : workspace.containers[number]? = some container)
  (hsearch : workspace.searches.get? name = some search)

include hsound haxis hfits hcontainer hsearch

omit [Uncounting C α P E] in
/-- A search that is to find nothing more is exhausted by its next step. -/
theorem fetch_nil (hpending : search.Pending container number axis []) :
    ∃ containers last, Counted workspace.containers containers ∧
      workspace.step (.next name none : Command P E) = .ok (.row none, { workspace with
        containers, searches := workspace.searches.insert name last }) ∧
      { workspace with containers, searches := workspace.searches.insert name last }.Sound := by
  have ⟨containers, hcounted, hstep, hafter⟩ :=
    hsound.next_counted (E := E) hsearch (hpending.matchNext_nil haxis hcontainer hfits)
  exact ⟨containers, _, hcounted, hstep, hafter⟩

omit [Uncounting C α P E] in
/-- The row of the first element that a search is to find, and a handle to that element. -/
theorem fetch_cons {first : Key × Slots} {rest : List (Key × Slots)}
    (hpending : search.Pending container number axis (first :: rest)) (keep : String) :
    ∃ containers last, Counted workspace.containers containers ∧
      (∀ more : List (Command P E),
        workspace.run (.next name none :: .takeFromSearch name keep :: more) =
          let after := { workspace with
            containers
            handles := workspace.handles.insert keep ⟨number, first.1⟩
            searches := workspace.searches.insert name last }
          let row := foundRow (Container.graph container) number first
          (.ok (.row (some row)) :: .ok (.handle row.element) :: (after.run more).1,
            (after.run more).2)) ∧
      { workspace with
        containers
        handles := workspace.handles.insert keep ⟨number, first.1⟩
        searches := workspace.searches.insert name last }.Sound ∧
      (∃ entry, (Container.graph container).stored? first.1 = some entry ∧
        entry.deleted = false) ∧
      ∀ now : C, (Container.graph container).Struck (Container.graph now) first.1 →
        last.Pending now number axis rest := by
  have ⟨entry, last, hnext, hrow, hentry, hlive, hrest⟩ :=
    hpending.matchNext_cons haxis hcontainer hfits
  have ⟨containers, hcounted, hstep, hmiddle⟩ := hsound.next_counted (E := E) hsearch hnext
  have hlast := workspace.searches.get?_insert_self name last
  have helement : last.current.element = some ⟨number, first.1⟩ := by
    rw [hrow]
    rfl
  have ⟨containers', hcounted', hstep', hafter⟩ :=
    hmiddle.takeFromSearch_counted (E := E) hlast helement keep
  refine ⟨containers', last, hcounted.trans hcounted', fun more => ?_, hafter,
    ⟨entry, hentry, hlive⟩, hrest⟩
  rw [run_of_ok hstep, run_of_ok hstep', hrow]
  rfl

end Sound

omit [Uncounting C α P E] in
/-- An element that is live is removed from the container that owns it. -/
theorem Sound.remove_live (hsound : workspace.Sound)
    (hcontainer : workspace.containers[number]? = some container) {key : Key} {entry : Entry α}
    (hhandle : workspace.handles.get? name = some ⟨number, key⟩)
    (hentry : (Container.graph container).stored? key = some entry)
    (hlive : entry.deleted = false) :
    ∃ graph, (Container.graph container).remove key = .ok (true, graph) ∧
      (Container.graph container).Struck graph key ∧
      workspace.step (.remove number name : Command P E) = .ok (.flag true,
        workspace.setContainer number (Container.setGraph container graph)) ∧
      (workspace.setContainer number (Container.setGraph container graph)).Sound := by
  have ⟨graph, hremove, hgraph, hremoved⟩ := Graph.remove_removed
    (LawfulContainer.graph_sound (hsound.containers number container hcontainer)) hentry
  rw [hlive] at hremove
  have heq : workspace.container number = .ok container := containerAt_eq hcontainer
  refine ⟨graph, hremove, hremoved.struck, ?_, (hsound.removed hcontainer hgraph hremoved).sound⟩
  simp only [step, register_of_get? hhandle, ok_bind, remove, heq, ne_eq, not_true_eq_false,
    ↓reduceIte, hremove, pure_eq_ok, Bool.not_false]

/-- Going through the rows of a search and removing the element of each removes the elements that
the search is to find. -/
theorem Sound.sift (hsound : workspace.Sound) (haxis : axis.AlongElements)
    (hfits : ¬axis.Overruns C) (hcontainer : workspace.containers[number]? = some container)
    (hsearch : workspace.searches.get? name = some search)
    (hpending : search.Pending container number axis found)
    (hlength : names.length = found.length) :
    ∃ containers handles last,
      workspace.run (Command.sifting number name names : List (Command P E)) =
        (Reply.sifted (found.map (foundRow (Container.graph container) number)),
          { workspace with
            containers, handles, searches := workspace.searches.insert name last }) ∧
      { workspace with
        containers, handles, searches := workspace.searches.insert name last }.Sound ∧
      Removes workspace.containers number container (found.map Prod.fst) containers ∧
      ∀ others, names ⊆ others → handles.eraseAll others = workspace.handles.eraseAll others := by
  -- What is left to be found stays the same, whatever has become of the container behind the rows.
  induction names generalizing workspace container search found with
  | nil =>
      obtain rfl : found = [] := List.eq_nil_of_length_eq_zero hlength.symm
      obtain ⟨containers, last, hcounted, hstep, hafter⟩ :=
        hsound.fetch_nil (E := E) haxis hfits hcontainer hsearch hpending
      exact ⟨containers, workspace.handles, last, run_of_ok hstep [], hafter,
        removes_nil hcontainer hcounted, fun _ _ => rfl⟩
  | cons keep rest ih =>
      obtain ⟨first, more, rfl⟩ := List.exists_cons_of_length_eq_add_one hlength.symm
      obtain ⟨containers, last, hcounted, hrun, hmiddle, ⟨entry, hentry, hlive⟩, hrest⟩ :=
        hsound.fetch_cons (E := E) haxis hfits hcontainer hsearch hpending keep
      obtain ⟨now, hnow, hcounts⟩ := hcounted.counts number container hcontainer
      -- The element is removed from a container in which the references to it were counted anew.
      obtain ⟨entry', hentry', hsame⟩ := hcounts.recounted.exists_entry hentry
      have hlive' : entry'.deleted = false := (congrArg Element.deleted hsame).trans hlive
      have hhandle := workspace.handles.get?_insert_self keep ⟨number, first.1⟩
      obtain ⟨graph, hremove, hstruck, hstep, hafter⟩ :=
        hmiddle.remove_live (E := E) hnow hhandle hentry' hlive'
      have hboth : (Container.graph container).Struck
          (Container.graph (Container.setGraph now graph)) first.1 := by
        rw [LawfulContainer.graph_setGraph]
        exact (hcounts.recounted.struck _).trans hstruck
      have hreplaced := getElem?_replaced_self hnow (Container.setGraph now graph)
      have hlast := workspace.searches.get?_insert_self name last
      obtain ⟨containers', handles, last', hrun', hsoundAfter, hremoves, hhandles⟩ :=
        ih hafter hreplaced hlast (hrest _ hboth) (Nat.succ.inj hlength)
      simp only [setContainer, Table.insert_insert] at hrun' hsoundAfter hremoves hhandles
      refine ⟨containers', handles, last', ?_, hsoundAfter,
        (hremoves.cons hremove).counted hcounted hcounts, fun others hothers => ?_⟩
      · rw [Command.sifting, hrun]
        simp only [run_of_ok hstep, setContainer, hrun', Reply.sifted, List.map_cons,
          foundRow_relabeled hboth.toRelabeled]
      · obtain ⟨hkeep, hrestOthers⟩ := List.cons_subset.mp hothers
        rw [hhandles others hrestOthers, Table.eraseAll_insert hkeep]

omit [Uncounting C α P E] in
/-- Going through the rows of a search gives a handle to the element of each. -/
theorem Sound.gather (hsound : workspace.Sound) (haxis : axis.AlongElements)
    (hfits : ¬axis.Overruns C) (hcontainer : workspace.containers[number]? = some container)
    (hsearch : workspace.searches.get? name = some search)
    (hpending : search.Pending container number axis found) (hnodup : names.Nodup)
    (hlength : names.length = found.length) :
    ∃ containers handles last, Counted workspace.containers containers ∧
      workspace.run (Command.gathering name names : List (Command P E)) =
        (Reply.gathered (found.map (foundRow (Container.graph container) number)),
          { workspace with
            containers, handles, searches := workspace.searches.insert name last }) ∧
      { workspace with
        containers, handles, searches := workspace.searches.insert name last }.Sound ∧
      List.Forall₂ (fun name key => handles.get? name = some ⟨number, key⟩) names
        (found.map Prod.fst) ∧
      (∀ other ∉ names, handles.get? other = workspace.handles.get? other) ∧
      ∀ others, names ⊆ others → handles.eraseAll others = workspace.handles.eraseAll others := by
  induction names generalizing workspace container search found with
  | nil =>
      obtain rfl : found = [] := List.eq_nil_of_length_eq_zero hlength.symm
      obtain ⟨containers, last, hcounted, hstep, hafter⟩ :=
        hsound.fetch_nil (E := E) haxis hfits hcontainer hsearch hpending
      exact ⟨containers, workspace.handles, last, hcounted, run_of_ok hstep [], hafter, .nil,
        fun _ _ => rfl, fun _ _ => rfl⟩
  | cons keep rest ih =>
      obtain ⟨hkeep, hnodupRest⟩ := List.nodup_cons.mp hnodup
      obtain ⟨first, more, rfl⟩ := List.exists_cons_of_length_eq_add_one hlength.symm
      obtain ⟨containers, last, hcounted, hrun, hmiddle, _, hrest⟩ :=
        hsound.fetch_cons (E := E) haxis hfits hcontainer hsearch hpending keep
      obtain ⟨now, hnow, hcounts⟩ := hcounted.counts number container hcontainer
      have hlast := workspace.searches.get?_insert_self name last
      obtain ⟨containers', handles, last', hcounted', hrun', hafter, hhandles, hothers, herase⟩ :=
        ih hmiddle hnow hlast (hrest _ (hcounts.recounted.struck _)) hnodupRest
          (Nat.succ.inj hlength)
      simp only [Table.insert_insert] at hrun' hafter hothers herase
      have hfirst : handles.get? keep = some ⟨number, first.1⟩ := by
        rw [hothers keep hkeep, Table.get?_insert_self]
      refine ⟨containers', handles, last', hcounted.trans hcounted', ?_, hafter,
        .cons hfirst hhandles, fun other hother => ?_, fun others hsubset => ?_⟩
      · rw [Command.gathering, hrun]
        simp only [hrun', Reply.gathered, List.map_cons,
          foundRow_relabeled hcounts.recounted.toRelabeled]
      · rw [hothers other (List.not_mem_of_not_mem_cons hother), Table.get?_insert,
          if_neg (List.ne_of_not_mem_cons hother)]
      · obtain ⟨hkeepOthers, hrestOthers⟩ := List.cons_subset.mp hsubset
        rw [herase others hrestOthers, Table.eraseAll_insert hkeepOthers]

/-- Elements to which handles are kept are removed one after the other. -/
theorem Sound.removeEach (hsound : workspace.Sound)
    (hcontainer : workspace.containers[number]? = some container) {keys : List Key}
    (hhandles : List.Forall₂ (fun name key => workspace.handles.get? name = some ⟨number, key⟩)
      names keys) (hnodup : keys.Nodup)
    (hlive : ∀ key ∈ keys, ∃ entry, (Container.graph container).stored? key = some entry ∧
      entry.deleted = false) :
    ∃ containers, workspace.run (names.map (.remove number) : List (Command P E)) =
        (List.replicate keys.length (.ok (.flag true)), { workspace with containers }) ∧
      { workspace with containers }.Sound ∧
      Removes workspace.containers number container keys containers := by
  induction keys generalizing workspace container names with
  | nil =>
      cases hhandles
      exact ⟨workspace.containers, rfl, hsound, removes_nil hcontainer (.refl hsound.containers)⟩
  | cons key rest ih =>
      have ⟨hkey, hnodupRest⟩ := List.nodup_cons.mp hnodup
      obtain ⟨name, names, hhandle, hrest, rfl⟩ := List.forall₂_cons_right_iff.mp hhandles
      have ⟨entry, hentry, hdeleted⟩ := hlive key List.mem_cons_self
      have ⟨graph, hremove, hstruck, hstep, hafter⟩ :=
        hsound.remove_live (E := E) hcontainer hhandle hentry hdeleted
      have hreplaced := getElem?_replaced_self hcontainer (Container.setGraph container graph)
      have ⟨containers, hrun, hsoundAfter, hremoves⟩ := ih hafter hreplaced hrest hnodupRest
        fun other hother => by
          rw [LawfulContainer.graph_setGraph]
          exact hstruck.live (fun heq => hkey (heq ▸ hother))
            (hlive other (List.mem_cons_of_mem key hother))
      refine ⟨containers, ?_, hsoundAfter, hremoves.cons hremove⟩
      rw [List.map_cons, run_of_ok hstep, hrun]
      rfl

omit [Uncounting C α P E] in
/-- Dropping handles and a search takes them out of the tables, and gives their references back. -/
theorem Sound.drop_all (hsound : workspace.Sound) (name : String) (names : List String) :
    ∃ containers, Counted workspace.containers containers ∧
      (workspace.run (Command.dropping name names : List (Command P E))).2 = { workspace with
        containers
        handles := workspace.handles.eraseAll names
        searches := workspace.searches.erase name } ∧
      { workspace with
        containers
        handles := workspace.handles.eraseAll names
        searches := workspace.searches.erase name }.Sound := by
  induction names generalizing workspace with
  | nil =>
      have ⟨containers, hcounted, hstep, hafter⟩ := hsound.dropSearch_counted (E := E) name
      refine ⟨containers, hcounted, ?_, hafter⟩
      rw [Command.dropping, List.map_nil, List.nil_append, run_of_ok hstep]
      rfl
  | cons keep rest ih =>
      have ⟨containers, hcounted, hstep, hmiddle⟩ := hsound.dropHandle_counted (E := E) keep
      have ⟨containers', hcounted', hrun, hafter⟩ := ih hmiddle
      refine ⟨containers', hcounted.trans hcounted', ?_, hafter⟩
      rw [Command.dropping, List.map_cons, List.cons_append, run_of_ok hstep]
      exact hrun

/-- Once nothing more is kept than before, it does not matter how the elements were removed. -/
theorem Removes.settle {containers : Array C} {handles : Table String Handle} {last : Search P}
    {serial : Nat} {keys : List Key} {graph : Graph α}
    (hremoves : Removes workspace.containers number container keys containers)
    (hmiddle : { workspace with
      containers, handles, searches := workspace.searches.insert name last, serial }.Sound)
    (hhandles : handles.eraseAll names = workspace.handles)
    (hsearch : workspace.searches.get? name = none)
    (hremove : (Container.graph container).removeAll keys = .ok (keys.length, graph))
    (hafter : (workspace.setContainer number (Container.setGraph container graph)).Sound) :
    ({ workspace with
      containers, handles, searches := workspace.searches.insert name last,
      serial }.run (Command.dropping name names : List (Command P E))).2 =
        { workspace.setContainer number (Container.setGraph container graph) with serial } := by
  have ⟨dropped, hcounted, hrun, hdropped⟩ := hmiddle.drop_all (E := E) name names
  have herase : (workspace.searches.insert name last).erase name = workspace.searches :=
    (Table.eraseAll_insert (List.mem_singleton_self name) last).trans
      (Table.erase_eq_self hsearch)
  rw [hrun]
  simp only [hhandles, herase] at hdropped ⊢
  have ⟨removed, hagain, hsame⟩ := hremoves
  cases hremove.symm.trans hagain
  have hserial : { workspace.setContainer number (Container.setGraph container graph) with
      serial }.Sound := (hafter.withPatterns workspace.patterns serial).sound
  -- The same is kept on both sides, so the counts, in which the containers might differ, agree.
  have heq : dropped =
      workspace.containers.setIfInBounds number (Container.setGraph container graph) :=
    hserial.containers_eq hdropped (hcounted.uncounted_eq.trans hsame)
  rw [heq]
  rfl

/-- Nothing is kept under the names. -/
structure Unused (workspace : Workspace C P) (name : String) (names : List String) : Prop where
  search : workspace.searches.get? name = none
  handles : ∀ keep ∈ names, workspace.handles.get? keep = none

/-- The rows of a search for a pattern, and the workspace that is left when the element of each row
has been removed and all handles and the search are dropped.  Only the identity of the pattern is
used up. -/
structure RemovesRows (workspace : Workspace C P) (number : Nat) (pattern : P)
    (rows : List Match) (after : Workspace C P) : Prop where
  /-- A new search for the pattern drains to the rows. -/
  drained : ∀ name,
    (workspace.run [.search (some (number, .matching pattern)) name, .drain name none]).1 =
      [.ok .done, .ok (.rows rows)]
  /-- Each element is removed before the search goes on. -/
  sifted : ∀ name names, workspace.Unused name names → names.length = rows.length →
    let asking := [.search (some (number, .matching pattern)) name]
    let sifting := Command.sifting number name names
    (workspace.run (asking ++ sifting)).1 = .ok .done :: Reply.sifted rows ∧
      (workspace.run (asking ++ sifting ++ Command.dropping name names)).2 =
        { after with serial := workspace.serial + 1 }
  /-- The elements are removed when the search has come to its end. -/
  gathered : ∀ name names, workspace.Unused name names → names.Nodup →
    names.length = rows.length →
    let asking := [.search (some (number, .matching pattern)) name]
    let gathering := Command.gathering name names
    let removing := names.map (.remove number)
    (workspace.run (asking ++ gathering)).1 = .ok .done :: Reply.gathered rows ∧
      ((workspace.run (asking ++ gathering)).2.run removing).1 =
        List.replicate rows.length (.ok (.flag true)) ∧
      (workspace.run (asking ++ gathering ++ removing ++ Command.dropping name names)).2 =
        { after with serial := workspace.serial + 1 }

namespace Sound

variable (hsound : workspace.Sound) (hcontainer : workspace.containers[number]? = some container)
  {pattern : P}
  (hpending : (Search.along number (.matching ⟨workspace.serial, pattern⟩ none)).Pending container
    number (.matching ⟨workspace.serial, pattern⟩ none) found)
  (hfits : ¬Container.Overruns C pattern)

include hsound hcontainer hpending

/-- A new search for a pattern is to find the same, whatever was kept under its name before. -/
theorem ask (name : String) :
    ∃ containers now, Counted workspace.containers containers ∧ Counts container now ∧
      containers[number]? = some now ∧
      let search : Search P := .along number (.matching ⟨workspace.serial, pattern⟩ none)
      let asked := { workspace with
        containers
        searches := workspace.searches.insert name search
        serial := workspace.serial + 1 }
      workspace.step (.search (some (number, .matching pattern)) name : Command P E) =
        .ok (.done, asked) ∧
      asked.Sound ∧ asked.searches.get? name = some search ∧
      search.Pending now number (.matching ⟨workspace.serial, pattern⟩ none) found := by
  have ⟨containers, hcounted, hstep, hasked⟩ :=
    hsound.search_counted (E := E) hcontainer pattern name
  have ⟨now, hnow, hcounts⟩ := hcounted.counts number container hcontainer
  exact ⟨containers, now, hcounted, hcounts, hnow, hstep, hasked,
    workspace.searches.get?_insert_self name _, hpending.counted hcounts⟩

include hfits

theorem drained_rows (name : String) :
    (workspace.run [.search (some (number, .matching pattern)) name, .drain name none]).1 =
      [.ok .done, .ok (.rows (found.map (foundRow (Container.graph container) number)))] := by
  have ⟨containers, now, _, hcounts, hnow, hstep, hasked, hsearch, hnew⟩ :=
    hsound.ask (E := E) hcontainer hpending name
  have ⟨rows, last, after, htake, hdrain, _⟩ := hasked.drain_step (E := E) hsearch none
  cases htake.symm.trans
    (hnew.drain (Axis.alongElements_matching ⟨workspace.serial, pattern⟩ none) hnow hfits)
  rw [run_of_ok hstep, run_of_ok hdrain, foundRow_relabeled hcounts.recounted.toRelabeled]
  rfl

variable {graph : Graph α}
  (hremove : (Container.graph container).removeAll (found.map Prod.fst) =
    .ok ((found.map Prod.fst).length, graph))
  (hafter : (workspace.setContainer number (Container.setGraph container graph)).Sound)
  (hunused : workspace.Unused name names) (hlength : names.length = found.length)

include hremove hafter hunused hlength

theorem sifted_rows :
    let asking := [.search (some (number, .matching pattern)) name]
    let sifting := Command.sifting number name names
    (workspace.run (asking ++ sifting)).1 =
        .ok .done :: Reply.sifted (found.map (foundRow (Container.graph container) number)) ∧
      (workspace.run (asking ++ sifting ++ Command.dropping name names)).2 =
        { workspace.setContainer number (Container.setGraph container graph) with
          serial := workspace.serial + 1 } := by
  intro asking sifting
  have ⟨containers, now, hcounted, hcounts, hnow, hstep, hasked, hsearch, hnew⟩ :=
    hsound.ask (E := E) hcontainer hpending name
  have ⟨containers', handles, last, hrun, hsifted, hremoves, hhandles⟩ :=
    hasked.sift (E := E) (Axis.alongElements_matching ⟨workspace.serial, pattern⟩ none) hfits hnow
      hsearch hnew hlength
  have hasking : workspace.run (asking ++ sifting) = _ := run_of_ok hstep sifting
  simp only [sifting, hrun, Table.insert_insert] at hasking hsifted
  have herase : handles.eraseAll names = workspace.handles :=
    (hhandles names (List.Subset.refl names)).trans (Table.eraseAll_eq_self hunused.handles)
  rw [run_append, hasking, foundRow_relabeled hcounts.recounted.toRelabeled]
  exact ⟨rfl, (hremoves.counted hcounted hcounts).settle hsifted herase hunused.search hremove
    hafter⟩

theorem gathered_rows (hnodup : names.Nodup) :
    let asking := [.search (some (number, .matching pattern)) name]
    let gathering := Command.gathering name names
    let removing := names.map (.remove number)
    (workspace.run (asking ++ gathering)).1 =
        .ok .done :: Reply.gathered (found.map (foundRow (Container.graph container) number)) ∧
      ((workspace.run (asking ++ gathering)).2.run removing).1 =
        List.replicate found.length (.ok (.flag true)) ∧
      (workspace.run (asking ++ gathering ++ removing ++ Command.dropping name names)).2 =
        { workspace.setContainer number (Container.setGraph container graph) with
          serial := workspace.serial + 1 } := by
  intro asking gathering removing
  have ⟨containers, now, hcounted, hcounts, hnow, hstep, hasked, hsearch, hnew⟩ :=
    hsound.ask (E := E) hcontainer hpending name
  have ⟨containers', handles, last, hcounted', hrun, hgathered, hhandles, _, hothers⟩ :=
    hasked.gather (E := E) (Axis.alongElements_matching ⟨workspace.serial, pattern⟩ none) hfits
      hnow hsearch hnew hnodup hlength
  have ⟨now', hnow', hcounts'⟩ := hcounted'.counts number now hnow
  have ⟨_, hfinds⟩ := (hnew.counted hcounts').finds
  have ⟨containers'', hrunRemoving, hremoved, hremoves⟩ :=
    hgathered.removeEach (E := E) hnow' hhandles hfinds.nodup fun key hkey => hfinds.live hkey
  have hasking : workspace.run (asking ++ gathering) = _ := run_of_ok hstep gathering
  simp only [gathering, hrun, Table.insert_insert] at hasking hremoved hrunRemoving
  have herase : handles.eraseAll names = workspace.handles :=
    (hothers names (List.Subset.refl names)).trans (Table.eraseAll_eq_self hunused.handles)
  rw [run_append workspace (asking ++ gathering ++ removing),
    run_append workspace (asking ++ gathering), hasking, hrunRemoving,
    foundRow_relabeled hcounts.recounted.toRelabeled, List.length_map]
  exact ⟨rfl, rfl, ((hremoves.counted hcounted' hcounts').counted hcounted hcounts).settle hremoved
    herase hunused.search hremove hafter⟩

end Sound

/-- What a new search is to find is removed row by row, if to remove it gives a graph. -/
theorem Sound.removesRows (hsound : workspace.Sound)
    (hcontainer : workspace.containers[number]? = some container) {pattern : P} {graph : Graph α}
    (hpending : (Search.along number (.matching ⟨workspace.serial, pattern⟩ none)).Pending container
      number (.matching ⟨workspace.serial, pattern⟩ none) found)
    (hfits : ¬Container.Overruns C pattern)
    (hremove : (Container.graph container).removeAll (found.map Prod.fst) =
      .ok (found.length, graph))
    (hafter : (workspace.setContainer number (Container.setGraph container graph)).Sound) :
    workspace.RemovesRows number pattern (found.map (foundRow (Container.graph container) number))
      (workspace.setContainer number (Container.setGraph container graph)) := by
  have hkeys : (Container.graph container).removeAll (found.map Prod.fst) =
      .ok ((found.map Prod.fst).length, graph) := by rwa [List.length_map]
  constructor
  · exact hsound.drained_rows hcontainer hpending hfits
  · intro name names hunused hlength
    rw [List.length_map] at hlength
    exact hsound.sifted_rows hcontainer hpending hfits hkeys hafter hunused hlength
  · intro name names hunused hnodup hlength
    rw [List.length_map] at hlength ⊢
    exact hsound.gathered_rows hcontainer hpending hfits hkeys hafter hunused hlength hnodup

end Workspace

end FormalLanguages
