/-
# Keeping something changes counts and one table

Whatever is kept or dropped, the workspace afterwards differs from the one before in two respects
only: the references to some elements are counted anew, and one table has one entry more or less.
The containers keep all their own tables, and every other table of the workspace is the same.

The lemmas here say this of any attempt that succeeded, without asking why it did.
-/

import FormalLanguages.Proofs.Search.Uncounted
import FormalLanguages.Proofs.Workspace

namespace FormalLanguages

variable {C α P E : Type} [Container C α P E]

/-- A container in whose graph references were taken and given back, and to which nothing else was
done. -/
inductive Counts (container : C) : C → Prop
  | refl : Counts container container
  | step {middle : C} {graph : Graph α} (hcounts : Counts container middle) (hgraph : graph.Sound)
      (hrecounted : (Container.graph middle).Recounted graph)
      (huncounted : graph.uncounted = (Container.graph middle).uncounted) :
      Counts container (Container.setGraph middle graph)

theorem Counts.trans {container middle now : C} (hfirst : Counts container middle)
    (hsecond : Counts middle now) : Counts container now := by
  induction hsecond with
  | refl => exact hfirst
  | step _ hgraph hrecounted huncounted ih => exact .step ih hgraph hrecounted huncounted

theorem Counts.recounted [LawfulContainer C α P E] {container now : C}
    (hcounts : Counts container now) :
    (Container.graph container).Recounted (Container.graph now) := by
  induction hcounts with
  | refl => exact .refl _
  | step _ _ hrecounted _ ih =>
      rw [LawfulContainer.graph_setGraph]
      exact ih.trans hrecounted

/-- Only the reference counts of the container may differ from those before. -/
theorem Counts.uncounted_eq [LawfulContainer C α P E] [Uncounting C α P E] {container now : C}
    (hcounts : Counts container now) : Container.uncounted now = Container.uncounted container := by
  induction hcounts with
  | refl => rfl
  | step _ _ _ huncounted ih =>
      rw [← ih, Container.uncounted, Container.uncounted, LawfulContainer.graph_setGraph,
        Uncounting.setGraph_setGraph, huncounted]

/-- Sound containers, in which references were counted anew. -/
structure Counted [LawfulContainer C α P E] (containers after : Array C) : Prop where
  sound : AllSound after
  size_eq : after.size = containers.size
  counts : ∀ (number : Nat) (container : C), containers[number]? = some container →
    ∃ now, after[number]? = some now ∧ Counts container now

theorem Counted.refl [LawfulContainer C α P E] {containers : Array C}
    (hall : AllSound containers) : Counted containers containers :=
  ⟨hall, rfl, fun _ container hcontainer => ⟨container, hcontainer, .refl⟩⟩

theorem Counted.trans [LawfulContainer C α P E] {containers middle after : Array C}
    (hfirst : Counted containers middle) (hsecond : Counted middle after) :
    Counted containers after where
  sound := hsecond.sound
  size_eq := hsecond.size_eq.trans hfirst.size_eq
  counts number container hcontainer := by
    obtain ⟨found, hfound, hcounts⟩ := hfirst.counts number container hcontainer
    obtain ⟨now, hnow, hcounts'⟩ := hsecond.counts number found hfound
    exact ⟨now, hnow, hcounts.trans hcounts'⟩

/-- Containers in which references were counted anew differ from those before in nothing else. -/
theorem Counted.uncounted_eq [LawfulContainer C α P E] [Uncounting C α P E]
    {containers after : Array C} (hcounted : Counted containers after) :
    after.map Container.uncounted = containers.map Container.uncounted := by
  apply Array.ext_getElem?
  intro number
  rw [Array.getElem?_map, Array.getElem?_map]
  cases hcontainer : containers[number]? with
  | none =>
      have hsize : after.size ≤ number :=
        hcounted.size_eq ▸ Array.getElem?_eq_none_iff.mp hcontainer
      rw [Array.getElem?_eq_none hsize]
  | some container =>
      obtain ⟨now, hnow, hcounts⟩ := hcounted.counts number container hcontainer
      rw [hnow, Option.map_some, Option.map_some, hcounts.uncounted_eq]

namespace Workspace

/-- An operation on a store that counts the references to one element anew. -/
def Recounting {β : Type} (change : Store β → Key → Except Fault (Store β)) : Prop :=
  ∀ store key after, change store key = .ok after →
    ∃ cell references, store.cell? key = some cell ∧ after = store.put key { cell with references }

theorem recounting_hold {β : Type} : Recounting (Store.hold : Store β → _) := by
  intro store key after hhold
  obtain ⟨cell, hcell, hafter⟩ := bind_eq_ok.mp hhold
  exact ⟨cell, cell.references + 1, Store.cell_eq_ok_iff.mp hcell, (Except.ok.inj hafter).symm⟩

theorem recounting_release {β : Type} : Recounting (Store.release : Store β → _) := by
  intro store key after hrelease
  obtain ⟨cell, hcell, hafter⟩ := bind_eq_ok.mp hrelease
  split at hafter
  · cases hafter
  · exact ⟨cell, cell.references - 1, Store.cell_eq_ok_iff.mp hcell, (Except.ok.inj hafter).symm⟩

variable [LawfulContainer C α P E] {workspace after : Workspace C P} {name : String}

/-- A workspace in which references were counted anew, with the patterns of the one before. -/
structure Framed (workspace after : Workspace C P) : Prop where
  counted : Counted workspace.containers after.containers
  patterns_eq : after.patterns = workspace.patterns

theorem Framed.trans {middle : Workspace C P} (hfirst : workspace.Framed middle)
    (hsecond : middle.Framed after) : workspace.Framed after :=
  ⟨hfirst.counted.trans hsecond.counted, hsecond.patterns_eq.trans hfirst.patterns_eq⟩

theorem adjust_counted {change : Store (Node α) → Key → Except Fault (Store (Node α))}
    (hchange : Recounting change) (hall : AllSound workspace.containers) {handle : Handle}
    (hadjust : workspace.adjust change handle = .ok after) :
    ∃ containers, Counted workspace.containers containers ∧
      after = { workspace with containers } := by
  obtain ⟨container, hcontainer, hrest⟩ := bind_eq_ok.mp hadjust
  obtain ⟨store, hstore, hafter⟩ := bind_eq_ok.mp hrest
  cases hafter
  have hfound : workspace.containers[handle.container]? = some container := by
    unfold Workspace.container containerAt at hcontainer
    split at hcontainer
    · next found heq => exact heq.trans (congrArg some (Except.ok.inj hcontainer))
    · cases hcontainer
  have hsound := hall _ container hfound
  obtain ⟨cell, references, hcell, rfl⟩ := hchange _ _ _ hstore
  obtain ⟨hgraph, hrecounted, -⟩ :=
    Graph.recount_spec (LawfulContainer.graph_sound hsound) hcell references
  have huncounted := (Container.graph container).uncounted_recounted hcell references
  exact ⟨_, ⟨allSound_replaced hfound _ hall
      (LawfulContainer.sound_setGraph hsound hgraph hrecounted.persists),
    Array.size_setIfInBounds,
    exists_replaced hfound _ (Counts.step .refl hgraph hrecounted huncounted) fun _ => .refl⟩, rfl⟩

theorem foldlM_adjust_counted {change : Store (Node α) → Key → Except Fault (Store (Node α))}
    (hchange : Recounting change) {handles : List Handle} (hall : AllSound workspace.containers)
    (hfold : handles.foldlM (adjust change) workspace = .ok after) :
    ∃ containers, Counted workspace.containers containers ∧
      after = { workspace with containers } := by
  induction handles generalizing workspace with
  | nil =>
      cases hfold
      exact ⟨_, .refl hall, rfl⟩
  | cons handle rest ih =>
      rw [List.foldlM_cons] at hfold
      obtain ⟨middle, hadjust, hrest⟩ := bind_eq_ok.mp hfold
      obtain ⟨containers, hcounted, rfl⟩ := adjust_counted hchange hall hadjust
      obtain ⟨containers', hcounted', rfl⟩ := ih hcounted.sound hrest
      exact ⟨containers', hcounted.trans hcounted', rfl⟩

section Frames

variable (hall : AllSound workspace.containers)

include hall

theorem exchange_counted {come go : List Handle}
    (hexchange : workspace.exchange come go = .ok after) :
    ∃ containers, Counted workspace.containers containers ∧
      after = { workspace with containers } := by
  obtain ⟨middle, hhold, hrelease⟩ := bind_eq_ok.mp hexchange
  obtain ⟨containers, hcounted, rfl⟩ := foldlM_adjust_counted recounting_hold hall hhold
  obtain ⟨containers', hcounted', rfl⟩ :=
    foldlM_adjust_counted recounting_release hcounted.sound hrelease
  exact ⟨containers', hcounted.trans hcounted', rfl⟩

theorem keepHandle_counted {handle : Handle}
    (hkeep : workspace.keepHandle name handle = .ok after) :
    ∃ containers, Counted workspace.containers containers ∧
      after = { workspace with containers, handles := workspace.handles.insert name handle } := by
  obtain ⟨middle, hexchange, hafter⟩ := bind_eq_ok.mp hkeep
  cases hafter
  obtain ⟨containers, hcounted, rfl⟩ := exchange_counted hall hexchange
  exact ⟨containers, hcounted, rfl⟩

theorem keepMatch_counted {found : Match} (hkeep : workspace.keepMatch name found = .ok after) :
    ∃ containers, Counted workspace.containers containers ∧
      after = { workspace with containers, results := workspace.results.insert name found } := by
  obtain ⟨middle, hexchange, hafter⟩ := bind_eq_ok.mp hkeep
  cases hafter
  obtain ⟨containers, hcounted, rfl⟩ := exchange_counted hall hexchange
  exact ⟨containers, hcounted, rfl⟩

theorem keepSearch_counted {search : Search P}
    (hkeep : workspace.keepSearch name search = .ok after) :
    ∃ containers, Counted workspace.containers containers ∧
      after = { workspace with containers, searches := workspace.searches.insert name search } := by
  obtain ⟨middle, hexchange, hafter⟩ := bind_eq_ok.mp hkeep
  cases hafter
  obtain ⟨containers, hcounted, rfl⟩ := exchange_counted hall hexchange
  exact ⟨containers, hcounted, rfl⟩

theorem dropHandle_counted {full : Bool} (hdrop : workspace.dropHandle name = .ok (full, after)) :
    ∃ containers, Counted workspace.containers containers ∧
      after = { workspace with containers, handles := workspace.handles.erase name } := by
  obtain ⟨middle, hexchange, hafter⟩ := bind_eq_ok.mp hdrop
  cases hafter
  obtain ⟨containers, hcounted, rfl⟩ := exchange_counted hall hexchange
  exact ⟨containers, hcounted, rfl⟩

theorem dropMatch_counted {full : Bool} (hdrop : workspace.dropMatch name = .ok (full, after)) :
    ∃ containers, Counted workspace.containers containers ∧
      after = { workspace with containers, results := workspace.results.erase name } := by
  obtain ⟨middle, hexchange, hafter⟩ := bind_eq_ok.mp hdrop
  cases hafter
  obtain ⟨containers, hcounted, rfl⟩ := exchange_counted hall hexchange
  exact ⟨containers, hcounted, rfl⟩

theorem dropSearch_counted {full : Bool} (hdrop : workspace.dropSearch name = .ok (full, after)) :
    ∃ containers, Counted workspace.containers containers ∧
      after = { workspace with containers, searches := workspace.searches.erase name } := by
  obtain ⟨middle, hexchange, hafter⟩ := bind_eq_ok.mp hdrop
  cases hafter
  obtain ⟨containers, hcounted, rfl⟩ := exchange_counted hall hexchange
  exact ⟨containers, hcounted, rfl⟩

theorem keepHandle_framed {handle : Handle}
    (hkeep : workspace.keepHandle name handle = .ok after) : workspace.Framed after := by
  obtain ⟨containers, hcounted, rfl⟩ := keepHandle_counted hall hkeep
  exact ⟨hcounted, rfl⟩

theorem keepMatch_framed {found : Match} (hkeep : workspace.keepMatch name found = .ok after) :
    workspace.Framed after := by
  obtain ⟨containers, hcounted, rfl⟩ := keepMatch_counted hall hkeep
  exact ⟨hcounted, rfl⟩

theorem keepSearch_framed {search : Search P}
    (hkeep : workspace.keepSearch name search = .ok after) : workspace.Framed after := by
  obtain ⟨containers, hcounted, rfl⟩ := keepSearch_counted hall hkeep
  exact ⟨hcounted, rfl⟩

end Frames

end Workspace

end FormalLanguages
