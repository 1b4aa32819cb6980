/-
# Reclaiming clears what is dead and nothing else

A reclaim decides at the beginning which elements are dead, and then takes them out one after the
other, in the order of their slots.  Neighbours may go together, and the one that a predecessor is
linked to may be the next to go.  In the end it does not matter in which order this was done: each
chain is what it was without the dead, everything else can be read as before, and no link, no end of
a chain, no entry of an index and nothing that is kept names an element that was freed.

What is left has no dead element, so a second reclaim frees nothing and leaves the workspace as it
is.
-/

import FormalLanguages.Proofs.Graph.Alike
import FormalLanguages.Proofs.Workspace.Chains
import FormalLanguages.Proofs.Workspace.Productions
import FormalLanguages.Proofs.Workspace.Transitions

namespace FormalLanguages

namespace Graph

variable {α : Type} {graph after : Graph α} {key next : Key} {dead : List Key} {entry : Entry α}

/-- An element that may be freed: it has been removed, and it has no references. -/
def Disposable (graph : Graph α) (key : Key) : Prop :=
  ∃ element, graph.element key = .ok element ∧ element.deleted = true ∧
    graph.store.references key = .ok 0

/-- A graph after the listed elements were cleared out of it. -/
structure Cleared (graph : Graph α) (dead : List Key) (after : Graph α) : Prop where
  nodup : dead.Nodup
  /-- Whatever may be freed is, and nothing else. -/
  mem_iff : ∀ key, key ∈ dead ↔ graph.Disposable key
  freed : ∀ key ∈ dead, after.element key = .error (.staleKey key)
  /-- Every other key reads as before, or is stale as before, and has as many references. -/
  kept : ∀ key, key ∉ dead → after.element key = graph.element key ∧
    after.store.references key = graph.store.references key
  /-- The links of a group spell what they did, without the freed elements. -/
  chains : ∀ number, number < graph.groups.size →
    ∃ keys, graph.Spells number keys ∧ after.Spells number (keys.filter (· ∉ dead))
  /-- No link leads to a freed element. -/
  linked : ∀ key node next, after.store.get key = .ok node → node.next = some next → next ∉ dead
  /-- No chain begins or ends with one. -/
  ends : ∀ number group, after.group number = .ok group →
    ∀ key, group.first = some key ∨ group.last = some key → key ∉ dead
  outline_eq : after.outline = graph.outline
  nextId_eq : after.nextId = graph.nextId
  /-- The number of live elements is the same. -/
  size_eq : after.size = graph.size

theorem references_eq (hentry : graph.stored? key = some entry) :
    graph.store.references key = .ok entry.references := by
  obtain ⟨cell, hcell, rfl⟩ := stored?_eq_some_iff.mp hentry
  exact Store.references_eq hcell

theorem disposable_iff : graph.Disposable key ↔ graph.Dead key := by
  constructor
  · rintro ⟨element, helement, hdeleted, hreferences⟩
    obtain ⟨entry, hentry, rfl⟩ := element_eq_ok_iff.mp helement
    rw [references_eq hentry] at hreferences
    exact ⟨entry, hentry, hdeleted, Except.ok.inj hreferences⟩
  · rintro ⟨entry, hentry, hdeleted, hfree⟩
    exact ⟨entry.toElement, element_of_stored hentry, hdeleted,
      (references_eq hentry).trans (congrArg Except.ok hfree)⟩

/-- The successor of a stored element is stored. -/
theorem Sound.exists_successor (hsound : graph.Sound) {node : Node α}
    (hnode : graph.store.get key = .ok node) (hnext : node.next = some next) :
    ∃ element, graph.element next = .ok element := by
  obtain ⟨cell, hcell, hcontent⟩ := bind_eq_ok.mp hnode
  have hnode? : graph.node? key = some node :=
    node?_eq_some_iff.mpr ⟨cell, Store.cell_eq_ok_iff.mp hcell, Except.ok.inj hcontent⟩
  obtain ⟨pre, post, hchain⟩ := hsound.exists_chain (place?_of_node? hnode?)
  obtain ⟨middle, -, hlinks⟩ := Links.append_iff.mp hchain.links
  obtain ⟨rfl, found, hfound, hrest⟩ := Links.cons_iff.mp hlinks
  cases hnode?.symm.trans hfound
  have hmem : next ∈ post := List.mem_of_head? (hrest.start_eq_head?.symm.trans hnext)
  obtain ⟨element, helement, -⟩ := (hchain.mem_iff_element next).mp
    (List.mem_append_right _ (List.mem_cons_of_mem key hmem))
  exact ⟨element, helement⟩

/-- So are the ends of a chain. -/
theorem Spells.exists_end {number : Nat} {keys : List Key} (hspells : graph.Spells number keys)
    {group : Group} (hgroup : graph.group number = .ok group)
    (hend : group.first = some key ∨ group.last = some key) :
    ∃ element, graph.element key = .ok element := by
  obtain ⟨found, hfound, hfirst, hlast⟩ := hspells.ends
  cases hgroup.symm.trans hfound
  have hmem : key ∈ keys := by
    rcases hend with hend | hend
    · exact List.mem_of_head? (hfirst.symm.trans hend)
    · exact List.mem_of_getLast? (hlast.symm.trans hend)
  obtain ⟨element, helement, -⟩ := (hspells.mem_iff key).mp hmem
  exact ⟨element, helement⟩

section Swept

variable (hswept : graph.Swept dead after)
  (hslots : after.store.slots.size = graph.store.slots.size)

include hswept hslots

/-- What is not freed cannot be told from what it was. -/
theorem Swept.kept (hkey : key ∉ dead) : after.element key = graph.element key ∧
    after.store.references key = graph.store.references key := by
  have hsame : after.stored? key = graph.stored? key := by rw [hswept.stored?_eq, if_neg hkey]
  cases hstored : graph.stored? key with
  | some entry =>
      rw [hstored] at hsame
      rw [references_eq hsame, references_eq hstored]
      refine ⟨(element_of_stored hsame).trans ?_, rfl⟩
      exact (element_of_stored hstored).symm
  | none =>
      rw [hstored] at hsame
      have hfault := Store.cell_eq_error (Option.map_eq_none_iff.mp hstored)
      have hfault' := Store.cell_eq_error (Option.map_eq_none_iff.mp hsame)
      rw [hslots] at hfault'
      simp only [element, Store.references, hfault, hfault', error_bind, and_self]

theorem Swept.freed (hkey : key ∈ dead) (hentry : graph.stored? key = some entry) :
    after.element key = .error (.staleKey key) := by
  obtain ⟨cell, hcell, -⟩ := stored?_eq_some_iff.mp hentry
  have hgone : after.stored? key = none := by rw [hswept.stored?_eq, if_pos hkey]
  have hstale := Store.cell_eq_staleKey (Option.map_eq_none_iff.mp hgone)
    (hslots ▸ Store.index_lt_of_stored hcell)
  simp only [element, hstale, error_bind]

end Swept

/-- Taking the dead elements out of a graph clears it of them. -/
theorem Sound.cleared (hsound : graph.Sound) (hafter : after.Sound)
    (hswept : graph.Swept graph.store.reclaimable after)
    (hslots : after.store.slots.size = graph.store.slots.size) :
    graph.Cleared graph.store.reclaimable after := by
  have hfreed (key : Key) (hkey : key ∈ graph.store.reclaimable) :
      after.element key = .error (.staleKey key) := by
    obtain ⟨entry, hentry, -⟩ := mem_reclaimable_iff.mp hkey
    exact hswept.freed hslots hkey hentry
  -- What can be read afterwards was not freed.
  have hleft (key : Key) (hread : ∃ element, after.element key = .ok element) :
      key ∉ graph.store.reclaimable := by
    obtain ⟨element, helement⟩ := hread
    intro hkey
    cases helement.symm.trans (hfreed key hkey)
  exact {
    nodup := Store.nodup_keysWhere _
    mem_iff := fun key => mem_reclaimable_iff.trans disposable_iff.symm
    freed := hfreed
    kept := fun key => hswept.kept hslots
    chains := fun number hnumber => by
      obtain ⟨keys, hchain⟩ := hsound.chained number hnumber
      exact ⟨keys, hchain.spells hnumber,
        (hswept.chain number keys hchain).spells (hswept.size_eq ▸ hnumber)⟩
    linked := fun key node next hnode hnext => hleft next (hafter.exists_successor hnode hnext)
    ends := fun number group hgroup key hend => by
      have hnumber : number < after.groups.size := by
        by_contra hnot
        simp [Graph.group, hnot] at hgroup
      obtain ⟨keys, hspells⟩ := hafter.exists_spells hnumber
      exact hleft key (hspells.exists_end hgroup hend)
    outline_eq := hswept.outline_eq
    nextId_eq := hswept.nextId_eq
    size_eq := ((Alike.refl graph).swept hswept).live_eq hafter hsound }

/-- After the dead elements were taken out there are none. -/
theorem Swept.reclaim_eq (hswept : graph.Swept graph.store.reclaimable after) :
    after.reclaim = .ok ([], after) := by
  suffices hnone : after.store.reclaimable = [] by
    rw [reclaim, hnone]
    rfl
  rw [List.eq_nil_iff_forall_not_mem]
  intro key hkey
  obtain ⟨entry, hentry, hdead⟩ := mem_reclaimable_iff.mp hkey
  have hbefore := hswept.stored?_before hentry
  have hmem : key ∈ graph.store.reclaimable := mem_reclaimable_iff.mpr ⟨entry, hbefore, hdead⟩
  rw [hswept.stored?_eq, if_pos hmem] at hentry
  cases hentry

end Graph

/-- Containers that reclaim what their graphs do, and change nothing else if this is nothing. -/
class Reclaiming (C : Type) (α P E : outParam Type) [Container C α P E] : Prop where
  reclaim_eq {container : C} {freed : List (Key × Node α)} {graph : Graph α}
    (hreclaim : (Container.graph container).reclaim = .ok (freed, graph)) :
    ∃ after, Container.reclaim container = .ok (freed.length, after) ∧
      Container.graph after = graph
  reclaim_none {container : C}
    (hreclaim : (Container.graph container).reclaim = .ok ([], Container.graph container)) :
    Container.reclaim container = .ok (0, container)

namespace Grammar

variable {A : Type} {grammar now : Grammar A} {dead : List Key}

/-- A grammar after a reclaim: of all its tables only the index has changed, which has lost the
productions that were freed, and files what is left. -/
structure Purged (grammar : Grammar A) (dead : List Key) (now : Grammar A) : Prop where
  eq_with : now = { grammar with graph := now.graph, index := now.index }
  mem_fileOf : ∀ place key,
    key ∈ fileOf now.index place ↔ key ∈ fileOf grammar.index place ∧ key ∉ dead
  files : now.Files

theorem Sound.purged (hsound : grammar.Sound) {count : Nat}
    (hreclaim : grammar.reclaim = .ok (count, now)) :
    grammar.Purged grammar.graph.store.reclaimable now := by
  obtain ⟨_, _, hspec, hnow, hswept⟩ := hsound.reclaim_spec
  cases hreclaim.symm.trans hspec
  refine ⟨?_, fun place key => ?_, hnow.files⟩
  · obtain ⟨⟨count, graph, index⟩, -, hafter⟩ := bind_eq_ok.mp hreclaim
    cases hafter
    rfl
  · rw [hnow.filed, hsound.filed, hswept.stored?_eq]
    by_cases hkey : key ∈ grammar.graph.store.reclaimable <;> simp [hkey]

instance reclaiming [DecidableEq A] : Reclaiming (Grammar A) SymbolString Pattern (Edit A) where
  reclaim_eq {grammar _ _} hreclaim := by
    change grammar.graph.reclaim = _ at hreclaim
    simp only [Container.reclaim, reclaim_eq, hreclaim, ok_bind, pure_eq_ok]
    exact ⟨_, rfl, rfl⟩
  reclaim_none {grammar} hreclaim := by
    change grammar.graph.reclaim = _ at hreclaim
    simp only [Container.reclaim, reclaim_eq, hreclaim, ok_bind, pure_eq_ok]
    rfl

end Grammar

namespace Automaton

variable {A : Type} {automaton now : Automaton A} {dead : List Key}

/-- An automaton after a reclaim: of all its tables only the index has changed, which has lost the
transitions that were freed, and finds what is live. -/
structure Purged (automaton : Automaton A) (dead : List Key) (now : Automaton A) : Prop where
  eq_with : now = { automaton with graph := now.graph, index := now.index }
  get?_iff : ∀ place key,
    now.index.get? place = some key ↔ automaton.index.get? place = some key ∧ key ∉ dead
  finds : now.Finds

theorem Sound.purged (hsound : automaton.Sound) {count : Nat}
    (hreclaim : automaton.reclaim = .ok (count, now)) :
    automaton.Purged automaton.graph.store.reclaimable now := by
  obtain ⟨_, _, hspec, hnow, hswept⟩ := hsound.reclaim_spec
  cases hreclaim.symm.trans hspec
  obtain ⟨freed, graph, hgraph, -, -, -, hreleased⟩ := Graph.reclaim_swept hsound.graph
  simp only [reclaim_eq, hgraph, ok_bind, pure_eq_ok, Except.ok.injEq, Prod.mk.injEq] at hreclaim
  obtain ⟨-, rfl⟩ := hreclaim
  exact ⟨rfl, hsound.get?_foldl_freed hreleased, hnow.finds⟩

instance reclaiming [DecidableEq A] : Reclaiming (Automaton A) Move Pattern (Edit A) where
  reclaim_eq {automaton _ _} hreclaim := by
    change automaton.graph.reclaim = _ at hreclaim
    simp only [Container.reclaim, reclaim_eq, hreclaim, ok_bind, pure_eq_ok]
    exact ⟨_, rfl, rfl⟩
  reclaim_none {automaton} hreclaim := by
    change automaton.graph.reclaim = _ at hreclaim
    simp only [Container.reclaim, reclaim_eq, hreclaim, ok_bind, pure_eq_ok]
    rfl

end Automaton

namespace Workspace

variable {C α P E : Type} [Container C α P E] {workspace : Workspace C P} {number : Nat}
  {container now : C} {dead : List Key}

/-- What a reclaim of one container of a workspace does, where the listed elements are dead. -/
structure Frees (workspace : Workspace C P) (number : Nat) (container : C) (dead : List Key)
    (now : C) : Prop where
  /-- It answers how many elements are dead, and replaces the container and nothing else. -/
  step_eq : workspace.step (.reclaim number : Command P E) =
    .ok (.count dead.length, workspace.setContainer number now)
  cleared : (Container.graph container).Cleared dead (Container.graph now)
  /-- Nothing that is kept refers to a freed element. -/
  unheld : ∀ handle ∈ workspace.holders, handle.container = number → handle.key ∉ dead
  /-- Whatever is kept refers to the same element as before. -/
  held : ∀ handle ∈ workspace.holders, ∃ element, workspace.read handle = .ok element ∧
    (workspace.setContainer number now).read handle = .ok element
  /-- A second reclaim frees nothing and changes nothing. -/
  again : (workspace.setContainer number now).step (.reclaim number : Command P E) =
    .ok (.count 0, workspace.setContainer number now)

namespace Sound

variable [LawfulContainer C α P E] (hsound : workspace.Sound)
  (hcontainer : workspace.containers[number]? = some container)

include hsound hcontainer

/-- What is kept is not dead. -/
theorem not_dead {handle : Handle} (hhandle : handle ∈ workspace.holders)
    (hnumber : handle.container = number) :
    handle.key ∉ (Container.graph container).store.reclaimable := by
  intro hkey
  obtain ⟨entry, hentry, -, hfree⟩ := Graph.mem_reclaimable_iff.mp hkey
  subst hnumber
  exact hsound.owed.references_ne_zero hhandle
    (entryAt_eq_some_iff.mpr ⟨container, hcontainer, hentry⟩) hfree

/-- Taking the dead elements out of a container leaves what is kept as it was. -/
theorem exists_read_swept
    (hswept : (Container.graph container).Swept (Container.graph container).store.reclaimable
      (Container.graph now))
    {handle : Handle} (hhandle : handle ∈ workspace.holders) :
    ∃ element, workspace.read handle = .ok element ∧
      (workspace.setContainer number now).read handle = .ok element := by
  obtain ⟨entry, hentry⟩ := hsound.owed.readable handle hhandle
  have hreplaced := entryAt_replaced hcontainer now handle
  refine ⟨entry.toElement, read_eq hentry, read_eq (hreplaced.trans ?_)⟩
  split
  · next hnumber =>
      obtain ⟨found, hfound, hstored⟩ := entryAt_eq_some_iff.mp hentry
      rw [hnumber] at hfound
      cases hcontainer.symm.trans hfound
      rw [hswept.stored?_eq, if_neg (hsound.not_dead hcontainer hhandle hnumber), hstored]
  · exact hentry

/-- In a sound workspace a reclaim frees what is dead. -/
theorem frees [Reclaiming C α P E] : ∃ count now, Container.reclaim container = .ok (count, now) ∧
    workspace.Frees number container (Container.graph container).store.reclaimable now := by
  have hlawful := hsound.containers number container hcontainer
  have hgraph := LawfulContainer.graph_sound hlawful
  obtain ⟨freed, after, hafter, -, -, hslots, hreleased⟩ := Graph.reclaim_swept hgraph
  obtain ⟨now, hreclaim, rfl⟩ := Reclaiming.reclaim_eq hafter
  obtain ⟨hnow, hswept⟩ := swept_of_reclaim_eq_ok hlawful hreclaim
  have hlength : freed.length = (Container.graph container).store.reclaimable.length := by
    rw [← hreleased.keys_eq, List.length_map]
  have hplaced : (workspace.setContainer number now).containers[number]? = some now :=
    getElem?_replaced_self hcontainer now
  have hagain := step_reclaim (E := E) hplaced (Reclaiming.reclaim_none hswept.reclaim_eq)
  exact ⟨freed.length, now, hreclaim, {
    step_eq := hlength ▸ step_reclaim hcontainer hreclaim
    cleared := hgraph.cleared (LawfulContainer.graph_sound hnow) hswept hslots
    unheld := fun handle => hsound.not_dead hcontainer
    held := fun handle => hsound.exists_read_swept hcontainer hswept
    again := hagain.trans (by rw [setContainer_self hplaced]) }⟩

end Sound

/-- Whatever is done to grammars, or to automata, a reclaim of one of them clears it of what is
removed and has no references, and of nothing else.  The links of every group are as if the freed
elements had never been there, nothing that is kept, linked or filed refers to one of them, and a
second reclaim has nothing to do. -/
theorem reclaiming_clears (A : Type) [DecidableEq A] (count number : Nat) :
    (∀ (commands : List (Command Grammar.Pattern (Grammar.Edit A))) (grammar : Grammar A),
      (reached (Grammar.empty : Grammar A) count commands).containers[number]? = some grammar →
        ∃ now, (reached (Grammar.empty : Grammar A) count commands).Frees number grammar
            grammar.graph.store.reclaimable now ∧
          grammar.Purged grammar.graph.store.reclaimable now) ∧
    ∀ (commands : List (Command Automaton.Pattern (Automaton.Edit A))) (automaton : Automaton A),
      (reached (Automaton.initial : Automaton A) count commands).containers[number]? =
        some automaton →
        ∃ now, (reached (Automaton.initial : Automaton A) count commands).Frees number automaton
            automaton.graph.store.reclaimable now ∧
          automaton.Purged automaton.graph.store.reclaimable now := by
  constructor
  · intro commands grammar hgrammar
    have hsound := sound_grammars count commands
    obtain ⟨_, now, hreclaim, hfrees⟩ := hsound.frees hgrammar
    exact ⟨now, hfrees,
      Grammar.Sound.purged (hsound.containers number grammar hgrammar) hreclaim⟩
  · intro commands automaton hautomaton
    have hsound := sound_automata count commands
    obtain ⟨_, now, hreclaim, hfrees⟩ := hsound.frees hautomaton
    exact ⟨now, hfrees,
      Automaton.Sound.purged (hsound.containers number automaton hautomaton) hreclaim⟩

/-- A run after which the productions of a variable are removed, and the second of them is still
held.  The third one is in the slot of one that was freed before, in front of the others. -/
def emptying : List (Command Grammar.Pattern (Grammar.Edit Nat)) :=
  [.edit 0 (.addVariables 2) none,
    .edit 0 (.addProduction (.ofVariable 1) .empty) (some "early"),
    .edit 0 (.addProduction (.ofVariable 1) (.ofSymbol (.ofVariable 1))) none,
    .edit 0 (.addProduction (.ofVariable 1) (.ofSymbol (.ofVariable 2))) (some "held"),
    .remove 0 "early", .dropHandle "early", .reclaim 0,
    .edit 0 (.addProduction (.ofVariable 1) (.ofSymbols [.ofVariable 1, .ofVariable 1])) none,
    .edit 0 (.addProduction (.ofVariable 1) (.ofSymbols [.ofVariable 2, .ofVariable 2])) none,
    .edit 0 (.addProduction (.ofVariable 2) .empty) none,
    .edit 0 (.removeVariable (.ofVariable 1)) none]

/-- A run that leaves two tombstones of one transition and nothing else. -/
def forgetting : List (Command Automaton.Pattern (Automaton.Edit Nat)) :=
  [.edit 0 (.addTransition ⟨⟨.epsilon, .epsilon, .epsilon, 0⟩, 0⟩) (some "old"), .remove 0 "old",
    .edit 0 (.addTransition ⟨⟨.epsilon, .epsilon, .epsilon, 0⟩, 0⟩) (some "new"), .remove 0 "new",
    .dropHandle "old", .dropHandle "new"]

/-- Of four tombstones in one chain the first and the last two are freed, of which the third comes
first, and a chain of two goes as a whole. -/
theorem reclaiming_clears_neighbours :
    (∃ grammar, (reached (Grammar.empty : Grammar Nat) 1 emptying).containers[0]? =
        some grammar ∧
      grammar.graph.chain 0 = .ok [⟨1, 0⟩, ⟨2, 0⟩, ⟨0, 1⟩, ⟨3, 0⟩] ∧
      grammar.graph.store.reclaimable = [⟨0, 1⟩, ⟨1, 0⟩, ⟨3, 0⟩] ∧
      ∃ now, (reached (Grammar.empty : Grammar Nat) 1 emptying).Frees 0 grammar
          grammar.graph.store.reclaimable now ∧
        grammar.Purged grammar.graph.store.reclaimable now) ∧
    ∃ automaton, (reached (Automaton.initial : Automaton Nat) 1 forgetting).containers[0]? =
        some automaton ∧
      automaton.graph.chain 0 = .ok [⟨0, 0⟩, ⟨1, 0⟩] ∧
      automaton.graph.store.reclaimable = [⟨0, 0⟩, ⟨1, 0⟩] ∧
      ∃ now, (reached (Automaton.initial : Automaton Nat) 1 forgetting).Frees 0 automaton
          automaton.graph.store.reclaimable now ∧
        automaton.Purged automaton.graph.store.reclaimable now :=
  ⟨⟨_, rfl, by decide +kernel, by decide +kernel, (reclaiming_clears Nat 1 0).1 _ _ rfl⟩,
    ⟨_, rfl, by decide +kernel, by decide +kernel, (reclaiming_clears Nat 1 0).2 _ _ rfl⟩⟩

end Workspace

end FormalLanguages
