/-
# Whoever has an element in hand has a reference to it

In the middle of a command references are owed to what is kept and to the code in hand.  Making a
handle and dropping one changes what is owed by this handle, and nothing else but counts, so a
container that is read in the middle of a command reads as it did at the beginning.

Walking with a handle exchanges it, element by element.  A walk that stops has one handle in hand
still, to the element where it has stopped, and one that finds nothing or is broken off has none.
-/

import FormalLanguages.Proofs.Search
import FormalLanguages.Proofs.Workspace.Frame
import FormalLanguages.Workspace.Holding

namespace FormalLanguages.Holding

variable {C α P E : Type} [Container C α P E]

variable [LawfulContainer C α P E] {origin containers : Array C} (workspace : Workspace C P)
  {handle : Handle} {handles others rest : List Handle}

/-- Containers in the middle of a command: since the beginning references were counted anew, and
they are owed to the given handles. -/
structure Midway (origin : Array C) (handles : List Handle) (containers : Array C) : Prop where
  counted : Counted origin containers
  owed : Owed containers handles

namespace Midway

theorem perm (hmidway : Midway origin handles containers) (hperm : handles.Perm others) :
    Midway origin others containers :=
  ⟨hmidway.counted, hmidway.owed.perm hperm⟩

theorem readable (hmidway : Midway origin handles containers)
    (hreadable : Readable origin handle) : Readable containers handle := by
  obtain ⟨entry, hentry⟩ := hreadable
  obtain ⟨container, hcontainer, hstored⟩ := entryAt_eq_some_iff.mp hentry
  obtain ⟨now, hnow, hcounts⟩ := hmidway.counted.counts _ container hcontainer
  obtain ⟨found, hfound, -⟩ := hcounts.recounted.exists_entry hstored
  exact ⟨found, entryAt_eq_some_iff.mpr ⟨now, hnow, hfound⟩⟩

end Midway

section Handles

variable (hmidway : Midway origin handles workspace.containers)

include hmidway

/-- A handle that is made is one more that a reference is owed to. -/
theorem hold_spec (hreadable : Readable origin handle) :
    ∃ containers, hold handle workspace = .ok { workspace with containers } ∧
      Midway origin (handle :: handles) containers := by
  have hnow : ∀ other ∈ [handle], Readable workspace.containers other := by
    simpa using hmidway.readable hreadable
  obtain ⟨containers, hfold, hall, howed, -⟩ :=
    Workspace.holdAll_spec hmidway.counted.sound hmidway.owed hnow
  have hhold : workspace.adjust Store.hold handle = .ok { workspace with containers } := by
    simpa only [List.foldlM_cons, List.foldlM_nil, bind_pure] using hfold
  obtain ⟨containers', hcounted, heq⟩ :=
    Workspace.adjust_counted Workspace.recounting_hold hmidway.counted.sound hhold
  obtain rfl := congrArg Workspace.containers heq
  exact ⟨containers, hhold, hmidway.counted.trans hcounted, howed⟩

theorem holdAny_spec {found : Option Handle}
    (hreadable : ∀ handle, found = some handle → Readable origin handle) :
    ∃ containers, holdAny found workspace = .ok { workspace with containers } ∧
      Midway origin (found.toList ++ handles) containers := by
  cases found with
  | none => exact ⟨workspace.containers, rfl, hmidway⟩
  | some handle => exact hold_spec workspace hmidway (hreadable handle rfl)

end Handles

/-- A handle that is dropped is no longer one that a reference is owed to. -/
theorem release_spec (hmidway : Midway origin (handle :: handles) workspace.containers) :
    ∃ containers, release handle workspace = .ok { workspace with containers } ∧
      Midway origin handles containers := by
  have howed : Owed workspace.containers ([handle] ++ handles) := hmidway.owed
  obtain ⟨containers, hfold, hall, howed, -⟩ :=
    Workspace.releaseAll_spec hmidway.counted.sound howed
  have hrelease : workspace.adjust Store.release handle = .ok { workspace with containers } := by
    simpa only [List.foldlM_cons, List.foldlM_nil, bind_pure] using hfold
  obtain ⟨containers', hcounted, heq⟩ :=
    Workspace.adjust_counted Workspace.recounting_release hmidway.counted.sound hrelease
  obtain rfl := congrArg Workspace.containers heq
  exact ⟨containers, hrelease, hmidway.counted.trans hcounted, howed⟩

theorem releaseAny_spec {found : Option Handle}
    (hmidway : Midway origin (found.toList ++ handles) workspace.containers) :
    ∃ containers, releaseAny found workspace = .ok { workspace with containers } ∧
      Midway origin handles containers := by
  cases found with
  | none => exact ⟨workspace.containers, rfl, hmidway⟩
  | some handle => exact release_spec workspace hmidway

/-- A handle that is exchanged for another one is so even if both refer to the same element. -/
theorem reassign_spec {target source : Handle}
    (hmidway : Midway origin (target :: handles) workspace.containers)
    (hreadable : Readable origin source) :
    ∃ containers, reassign target source workspace = .ok { workspace with containers } ∧
      Midway origin (source :: handles) containers := by
  by_cases hsame : target = source
  · subst hsame
    exact ⟨workspace.containers, by simp only [reassign, ↓reduceIte, pure_eq_ok], hmidway⟩
  · obtain ⟨middle, hhold, hmiddle⟩ := hold_spec workspace hmidway hreadable
    obtain ⟨containers, hrelease, hcontainers⟩ :=
      release_spec { workspace with containers := middle }
        (hmiddle.perm (.swap ..))
    exact ⟨containers, by simp only [reassign, hsame, ↓reduceIte, hhold, ok_bind, hrelease],
      hcontainers⟩

/-- A handle that is stepped on with is exchanged for one to the next element. -/
theorem hold_release_spec {next : Handle}
    (hmidway : Midway origin (handle :: handles) workspace.containers)
    (hreadable : Readable origin next) :
    ∃ middle containers, hold next workspace = .ok { workspace with containers := middle } ∧
      release handle { workspace with containers := middle } = .ok { workspace with containers } ∧
      Midway origin (next :: handles) containers := by
  obtain ⟨middle, hhold, hmiddle⟩ := hold_spec workspace hmidway hreadable
  obtain ⟨containers, hrelease, hcontainers⟩ :=
    release_spec { workspace with containers := middle } (hmiddle.perm (.swap ..))
  exact ⟨middle, containers, hhold, hrelease, hcontainers⟩

/-- A container that is read as another one is. -/
structure Reads (container now : C) : Prop where
  slots_eq : (Container.graph now).store.slots.size = (Container.graph container).store.slots.size
  isDeleted_eq : ∀ key, (Container.graph now).store.isDeleted key =
    (Container.graph container).store.isDeleted key
  element_eq : ∀ key, (Container.graph now).element key = (Container.graph container).element key
  findNext_eq : ∀ key confined, (Container.graph now).findNext key confined =
    (Container.graph container).findNext key confined
  rowOf_eq : ∀ number key slots, Axis.rowOf now number key slots =
    Axis.rowOf container number key slots
  start_eq : ∀ axis : Axis P, axis.start now = axis.start container
  advance_eq : ∀ (axis : Axis P) number, axis.advance now number = axis.advance container number

variable [Uncounting C α P E] {container : C} {number : Nat}

/-- In the middle of a command a container is read as at the beginning. -/
theorem Midway.reads (hmidway : Midway origin handles containers)
    (hcontainer : origin[number]? = some container) :
    ∃ now, containerAt containers number = .ok now ∧ Reads container now := by
  obtain ⟨now, hnow, hcounts⟩ := hmidway.counted.counts number container hcontainer
  have huncounted := hcounts.uncounted_eq
  have hgraph : (Container.graph now).uncounted = (Container.graph container).uncounted := by
    rw [← graph_uncounted, huncounted, graph_uncounted]
  refine ⟨now, containerAt_eq hnow, ?_, fun key => ?_, fun key => ?_, fun key confined => ?_,
    fun number key slots => ?_, fun axis => ?_, fun axis number => ?_⟩
  · rw [← Graph.uncounted_size, hgraph, Graph.uncounted_size]
  · rw [← Graph.uncounted_isDeleted, hgraph, Graph.uncounted_isDeleted]
  · rw [← Graph.uncounted_element, hgraph, Graph.uncounted_element]
  · rw [← Graph.uncounted_findNext, hgraph, Graph.uncounted_findNext]
  · rw [← Axis.rowOf_uncounted, huncounted, Axis.rowOf_uncounted]
  · rw [← Axis.start_uncounted, huncounted, Axis.start_uncounted]
  · rw [← Axis.advance_uncounted, huncounted, Axis.advance_uncounted]

/-- The handle in hand where a scan has stopped: one to the element that was accepted. -/
def inHand (number : Nat) : Option (Graph.Stop Slots) → List Handle
  | some ⟨key, _, .ok _⟩ => [⟨number, key⟩]
  | _ => []

section Walking

variable {confined : Bool} {key : Key} {keys : List Key} {bound : Nat}
  (hcontainer : origin[number]? = some container)

include hcontainer

/-- Stepping over tombstones ends with a handle to the first live element, or with none. -/
theorem nextLiveWithin_spec
    (htrail : (Container.graph container).Trail confined (some key) keys)
    (hbound : keys.length ≤ bound)
    (hmidway : Midway origin (⟨number, key⟩ :: handles) workspace.containers) :
    ∃ found containers, nextLiveWithin number confined bound key workspace =
        .ok (found, { workspace with containers }) ∧
      (Container.graph container).nextLiveWithin confined bound (some key) = .ok found ∧
      (Container.graph container).Positioned found ∧
      Midway origin (found.toList.map (Handle.mk number) ++ handles) containers := by
  induction bound generalizing key keys workspace with
  | zero =>
      cases htrail
      simp at hbound
  | succ bound ih =>
      obtain ⟨now, hnow, hreads⟩ := hmidway.reads hcontainer
      cases htrail with
      | @step _ next rest entry hentry hnext hrest =>
          have hdead := Graph.isDeleted_of_stored hentry
          cases hdeleted : entry.deleted with
          | false =>
              refine ⟨some key, workspace.containers, ?_, ?_, ?_, hmidway⟩
              · simp [nextLiveWithin, Workspace.container, hnow, hreads.isDeleted_eq, hdead,
                  hdeleted]
              · simp [Graph.nextLiveWithin, hdead, hdeleted]
              · intro other hother
                cases hother
                exact ⟨entry, hentry⟩
          | true =>
              cases hrest with
              | done =>
                  obtain ⟨containers, hrelease, hcontainers⟩ := release_spec workspace hmidway
                  refine ⟨none, containers, ?_, ?_, Graph.positioned_none _, hcontainers⟩
                  · simp [nextLiveWithin, Workspace.container, hnow, hreads.isDeleted_eq,
                      hreads.findNext_eq, hdead, hdeleted, hnext, hrelease]
                  · cases bound <;> simp [Graph.nextLiveWithin, hdead, hdeleted, hnext]
              | @step following _ _ entry' hentry' hnext' hrest' =>
                  obtain ⟨middle, after, hhold, hrelease, hafter⟩ :=
                    hold_release_spec workspace hmidway
                      ⟨entry', (entryAt_eq hcontainer following).trans hentry'⟩
                  obtain ⟨found, containers, hwalk, hpure, hpositioned, hcontainers⟩ :=
                    ih { workspace with containers := after }
                      (.step hentry' hnext' hrest') (Nat.le_of_succ_le_succ hbound) hafter
                  refine ⟨found, containers, ?_, ?_, hpositioned, hcontainers⟩
                  · simp [nextLiveWithin, Workspace.container, hnow, hreads.isDeleted_eq,
                      hreads.findNext_eq, hdead, hdeleted, hnext, hhold, hrelease, hwalk]
                  · simp [Graph.nextLiveWithin, hdead, hdeleted, hnext, hpure]

/-- Taking the handle at a position and stepping over tombstones with it. -/
theorem nextLive_spec {cursor : Option Key}
    (hahead : ∃ keys, (Container.graph container).Trail confined cursor keys ∧
      keys.length ≤ (Container.graph container).store.slots.size)
    (hmidway : Midway origin (cursor.toList.map (Handle.mk number) ++ handles)
      workspace.containers) :
    ∃ found containers, nextLive number confined cursor workspace =
        .ok (found, { workspace with containers }) ∧
      (Container.graph container).nextLive confined cursor = .ok found ∧
      (Container.graph container).Positioned found ∧
      Midway origin (found.toList.map (Handle.mk number) ++ handles) containers := by
  obtain ⟨keys, htrail, hlength⟩ := hahead
  cases cursor with
  | none =>
      refine ⟨none, workspace.containers, rfl, ?_, Graph.positioned_none _, hmidway⟩
      unfold Graph.nextLive
      cases (Container.graph container).store.slots.size <;> rfl
  | some key =>
      obtain ⟨now, hnow, hreads⟩ := hmidway.reads hcontainer
      obtain ⟨found, containers, hwalk, hpure, hrest⟩ :=
        nextLiveWithin_spec workspace hcontainer htrail hlength hmidway
      refine ⟨found, containers, ?_, hpure, hrest⟩
      simp only [nextLive, Workspace.container, hnow, ok_bind, hreads.slots_eq, hwalk]

/-- Scanning for an element that matches ends with a handle to it, or with none. -/
theorem scanWithin_spec (pattern : P) (slots : Slots)
    (htrail : (Container.graph container).Trail confined (some key) keys)
    (hbound : keys.length ≤ bound)
    (hmidway : Midway origin (⟨number, key⟩ :: handles) workspace.containers) :
    ∃ found containers, scanWithin number confined pattern bound key slots workspace =
        .ok (found, { workspace with containers }) ∧
      (Container.graph container).scanWithin confined (examine (C := C) pattern) Slots.clear bound
        key slots = .ok found ∧
      Midway origin (inHand number found ++ handles) containers := by
  induction bound generalizing key keys slots workspace with
  | zero =>
      cases htrail
      simp at hbound
  | succ bound ih =>
      obtain ⟨now, hnow, hreads⟩ := hmidway.reads hcontainer
      cases htrail with
      | @step _ next rest entry hentry hnext hrest =>
          have helement := Graph.element_of_stored hentry
          simp only [scanWithin, Graph.scanWithin, Workspace.container, hnow, hreads.findNext_eq,
            hreads.element_eq, hnext, helement, ok_bind]
          -- What the element comes to is the same with and without handles.
          generalize (if entry.toElement.deleted = true then (Except.ok false, slots)
            else examine (C := C) pattern entry.toElement slots) = decided
          obtain ⟨accepted, work⟩ := decided
          cases accepted with
          | error fault =>
              obtain ⟨containers, hrelease, hcontainers⟩ := release_spec workspace hmidway
              exact ⟨_, containers, by simp only [hrelease, ok_bind, pure_eq_ok], rfl,
                hcontainers⟩
          | ok accepted =>
              cases accepted with
              | true => exact ⟨_, workspace.containers, rfl, rfl, hmidway⟩
              | false =>
                  cases hrest with
                  | done =>
                      obtain ⟨containers, hrelease, hcontainers⟩ := release_spec workspace hmidway
                      exact ⟨none, containers, by simp only [hrelease, ok_bind, pure_eq_ok], rfl,
                        hcontainers⟩
                  | @step following _ _ entry' hentry' hnext' hrest' =>
                      obtain ⟨middle, after, hhold, hrelease, hafter⟩ :=
                        hold_release_spec workspace hmidway
                          ⟨entry', (entryAt_eq hcontainer following).trans hentry'⟩
                      obtain ⟨found, containers, hscan, hpure, hcontainers⟩ :=
                        ih { workspace with containers := after } work.clear
                          (.step hentry' hnext' hrest') (Nat.le_of_succ_le_succ hbound) hafter
                      exact ⟨found, containers, by simp only [hhold, hrelease, ok_bind, hscan],
                        hpure, hcontainers⟩

end Walking

end FormalLanguages.Holding
