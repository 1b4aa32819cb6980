/-
# References are owed to those who hold them

A list of handles is owed its references if every stored element has as many references as the list
names it, and everything that the list names is stored.  Taking a reference adds a handle to what is
owed, and giving one back takes a handle out, so neither can fail: what is given back was owed, and
an owed element is stored.

A change of a container that leaves the references as they are leaves what is owed as it is.
-/

import FormalLanguages.Proofs.Search
import FormalLanguages.Workspace

namespace FormalLanguages

variable {C α P E : Type} [Container C α P E] {containers middle after : Array C} {container : C}
  {number : Nat} {handle : Handle} {owed come go rest : List Handle}

/-- Containers after a change of any kind. -/
structure Aged (containers after : Array C) : Prop where
  size_eq : after.size = containers.size
  ages : ∀ (number : Nat) (container : C), containers[number]? = some container →
    ∃ now, after[number]? = some now ∧ (Container.graph container).Ages (Container.graph now)

/-- Containers after references were taken and given back. -/
structure Recounted (containers after : Array C) : Prop where
  size_eq : after.size = containers.size
  recounted : ∀ (number : Nat) (container : C), containers[number]? = some container →
    ∃ now, after[number]? = some now ∧
      (Container.graph container).Recounted (Container.graph now)

/-- Every element has as many references as the handles name it, and all that they name is
stored. -/
structure Owed (containers : Array C) (handles : List Handle) : Prop where
  counted : ∀ handle entry, entryAt containers handle = some entry →
    entry.references = handles.count handle
  readable : ∀ handle ∈ handles, Readable containers handle

theorem Owed.perm {others : List Handle} (howed : Owed containers owed)
    (hperm : owed.Perm others) : Owed containers others where
  counted handle entry hentry := (howed.counted handle entry hentry).trans (hperm.count_eq handle)
  readable handle hhandle := howed.readable handle (hperm.mem_iff.mpr hhandle)

/-- What a handle names has a reference. -/
theorem Owed.references_ne_zero (howed : Owed containers owed) {entry : Entry α}
    (hhandle : handle ∈ owed) (hentry : entryAt containers handle = some entry) :
    entry.references ≠ 0 := by
  rw [howed.counted handle entry hentry, Ne, List.count_eq_zero]
  exact fun hnot => hnot hhandle

/-- One more or one less reference to an element goes with one more or one less handle that names
it. -/
theorem Owed.adjusted {others : List Handle} {entry : Entry α} (howed : Owed containers owed)
    (hentries : ∀ other, entryAt after other =
      if other = handle then some entry else entryAt containers other)
    (hcounted : entry.references = others.count handle)
    (hcount : ∀ other, other ≠ handle → others.count other = owed.count other)
    (hreadable : ∀ other ∈ others, Readable after other) : Owed after others where
  counted other found hfound := by
    rw [hentries] at hfound
    by_cases hother : other = handle
    · subst hother
      rw [if_pos rfl] at hfound
      cases hfound
      exact hcounted
    · rw [if_neg hother] at hfound
      rw [hcount other hother]
      exact howed.counted other found hfound
  readable := hreadable

theorem Recounted.refl (containers : Array C) : Recounted containers containers :=
  ⟨rfl, fun _ container hcontainer => ⟨container, hcontainer, .refl _⟩⟩

theorem Recounted.trans (hfirst : Recounted containers middle) (hsecond : Recounted middle after) :
    Recounted containers after where
  size_eq := hsecond.size_eq.trans hfirst.size_eq
  recounted number container hcontainer := by
    obtain ⟨found, hfound, hrecounted⟩ := hfirst.recounted number container hcontainer
    obtain ⟨now, hnow, hrecounted'⟩ := hsecond.recounted number found hfound
    exact ⟨now, hnow, hrecounted.trans hrecounted'⟩

theorem Recounted.aged (hrecounted : Recounted containers after) : Aged containers after where
  size_eq := hrecounted.size_eq
  ages number container hcontainer := by
    obtain ⟨now, hnow, hrecounted⟩ := hrecounted.recounted number container hcontainer
    exact ⟨now, hnow, hrecounted.ages⟩

theorem Recounted.readable (hrecounted : Recounted containers after)
    (hreadable : Readable containers handle) : Readable after handle := by
  obtain ⟨entry, hentry⟩ := hreadable
  obtain ⟨container, hcontainer, hstored⟩ := entryAt_eq_some_iff.mp hentry
  obtain ⟨now, hnow, hcounted⟩ := hrecounted.recounted _ container hcontainer
  obtain ⟨found, hfound, -⟩ := hcounted.exists_entry hstored
  exact ⟨found, entryAt_eq_some_iff.mpr ⟨now, hnow, hfound⟩⟩

theorem Aged.recount (haged : Aged containers middle) (hrecounted : Recounted middle after) :
    Aged containers after where
  size_eq := hrecounted.size_eq.trans haged.size_eq
  ages number container hcontainer := by
    obtain ⟨found, hfound, hages⟩ := haged.ages number container hcontainer
    obtain ⟨now, hnow, hcounted⟩ := hrecounted.recounted number found hfound
    exact ⟨now, hnow, hages.recount hcounted⟩

section Replace

variable (hcontainer : containers[number]? = some container) (now : C)

include hcontainer

theorem getElem?_replaced (other : Nat) :
    (containers.setIfInBounds number now)[other]? =
      if other = number then some now else containers[other]? := by
  have hlt := (Array.getElem?_eq_some_iff.mp hcontainer).1
  by_cases hother : other = number
  · simp [hother, hlt]
  · have hne : number ≠ other := fun heq => hother heq.symm
    simp [hother, hne]

theorem getElem?_replaced_self : (containers.setIfInBounds number now)[number]? = some now := by
  rw [getElem?_replaced hcontainer, if_pos rfl]

theorem entryAt_replaced (handle : Handle) :
    entryAt (containers.setIfInBounds number now) handle =
      if handle.container = number then (Container.graph now).stored? handle.key
      else entryAt containers handle := by
  rw [entryAt, getElem?_replaced hcontainer]
  split <;> rfl

/-- A relation that holds of a container and its replacement, and of every container and itself,
holds of all containers before and after. -/
theorem exists_replaced {Relates : C → C → Prop} (hnow : Relates container now)
    (hrefl : ∀ container, Relates container container) (other : Nat) (before : C)
    (hbefore : containers[other]? = some before) :
    ∃ found, (containers.setIfInBounds number now)[other]? = some found ∧ Relates before found := by
  rw [getElem?_replaced hcontainer]
  split
  · next heq =>
      subst heq
      cases hcontainer.symm.trans hbefore
      exact ⟨now, rfl, hnow⟩
  · exact ⟨before, hbefore, hrefl before⟩

theorem aged_replaced (hages : (Container.graph container).Ages (Container.graph now)) :
    Aged containers (containers.setIfInBounds number now) where
  size_eq := Array.size_setIfInBounds
  ages := exists_replaced hcontainer now hages fun container =>
    (Graph.Recounted.refl (Container.graph container)).ages

theorem recounted_replaced
    (hrecounted : (Container.graph container).Recounted (Container.graph now)) :
    Recounted containers (containers.setIfInBounds number now) where
  size_eq := Array.size_setIfInBounds
  recounted := exists_replaced hcontainer now hrecounted fun _ => .refl _

theorem allSound_replaced [LawfulContainer C α P E] (hall : AllSound containers)
    (hsound : LawfulContainer.Sound now) : AllSound (containers.setIfInBounds number now) := by
  intro other found hfound
  rw [getElem?_replaced hcontainer] at hfound
  split at hfound
  · cases hfound
    exact hsound
  · exact hall other found hfound

/-- A change that leaves the references as they are leaves what is owed as it is. -/
theorem Owed.replaced (howed : Owed containers owed)
    (hevolves : (Container.graph container).Evolves (Container.graph now)) :
    Owed (containers.setIfInBounds number now) owed := by
  have hentryAt := entryAt_replaced hcontainer now
  refine ⟨?_, ?_⟩
  · intro handle entry hentry
    rw [hentryAt] at hentry
    split at hentry
    · next heq =>
        obtain ⟨number, key⟩ := handle
        subst heq
        rcases hevolves.origin key entry hentry with
          ⟨before, hbefore, -, hreferences⟩ | ⟨hzero, -, hunheld⟩
        · rw [hreferences]
          exact howed.counted _ before ((entryAt_eq hcontainer key).trans hbefore)
        · rw [hzero, eq_comm, List.count_eq_zero]
          intro hmem
          obtain ⟨before, hbefore⟩ := howed.readable _ hmem
          have hcounted := howed.counted _ before hbefore
          rw [hunheld before ((entryAt_eq hcontainer key).symm.trans hbefore), eq_comm,
            List.count_eq_zero] at hcounted
          exact hcounted hmem
    · exact howed.counted handle entry hentry
  · intro handle hhandle
    obtain ⟨entry, hentry⟩ := howed.readable handle hhandle
    have hheld := howed.references_ne_zero hhandle hentry
    rw [Readable, hentryAt]
    split
    · next heq =>
        obtain ⟨number, key⟩ := handle
        subst heq
        obtain ⟨now, hnow, -⟩ :=
          hevolves.kept key entry ((entryAt_eq hcontainer key).symm.trans hentry) hheld
        exact ⟨now, hnow⟩
    · exact ⟨entry, hentry⟩

end Replace

namespace Workspace

variable [LawfulContainer C α P E] {workspace : Workspace C P}

/-- Changing how often one element is referred to changes nothing else. -/
theorem adjust_spec {change : Store (Node α) → Key → Except Fault (Store (Node α))}
    {cell : Cell (Node α)} {references : Nat} (hall : AllSound workspace.containers)
    (hcontainer : workspace.containers[handle.container]? = some container)
    (hcell : (Container.graph container).store.cell? handle.key = some cell)
    (hchange : change (Container.graph container).store handle.key =
      .ok ((Container.graph container).store.put handle.key { cell with references })) :
    ∃ containers, workspace.adjust change handle = .ok { workspace with containers } ∧
      AllSound containers ∧ Recounted workspace.containers containers ∧
      ∀ other, entryAt containers other =
        if other = handle then some { cell.entry with references }
        else entryAt workspace.containers other := by
  have hsound := hall _ container hcontainer
  obtain ⟨hgraph, hrecounted, hentries⟩ :=
    Graph.recount_spec (LawfulContainer.graph_sound hsound) hcell references
  let graph := { Container.graph container with
    store := (Container.graph container).store.put handle.key { cell with references } }
  let now := Container.setGraph container graph
  have hnow : Container.graph now = graph := LawfulContainer.graph_setGraph container graph
  refine ⟨workspace.containers.setIfInBounds handle.container now,
    by simp [adjust, Workspace.container, containerAt_eq hcontainer, hchange, setContainer, now,
      graph],
    allSound_replaced hcontainer now hall
      (LawfulContainer.sound_setGraph hsound hgraph hrecounted.persists),
    recounted_replaced hcontainer now (hnow ▸ hrecounted), fun other => ?_⟩
  rw [entryAt_replaced hcontainer, hnow, hentries]
  obtain ⟨number, key⟩ := handle
  obtain ⟨number', key'⟩ := other
  by_cases hnumber : number' = number
  · subst hnumber
    by_cases hkey : key' = key
    · simp [hkey]
    · simp [hkey, entryAt_eq hcontainer]
  · simp [hnumber]

/-- Taking references to stored elements succeeds. -/
theorem holdAll_spec (hall : AllSound workspace.containers)
    (howed : Owed workspace.containers owed)
    (hcome : ∀ handle ∈ come, Readable workspace.containers handle) :
    ∃ containers, come.foldlM (adjust Store.hold) workspace = .ok { workspace with containers } ∧
      AllSound containers ∧ Owed containers (come ++ owed) ∧
      Recounted workspace.containers containers := by
  induction come generalizing workspace owed with
  | nil => exact ⟨workspace.containers, rfl, hall, howed, .refl _⟩
  | cons handle rest ih =>
      obtain ⟨entry, hentry⟩ := hcome handle List.mem_cons_self
      obtain ⟨container, hcontainer, hstored⟩ := entryAt_eq_some_iff.mp hentry
      obtain ⟨cell, hcell, rfl⟩ := Graph.stored?_eq_some_iff.mp hstored
      obtain ⟨containers, hadjust, hallMiddle, hrecounted, hentries⟩ :=
        adjust_spec hall hcontainer hcell (Store.hold_eq hcell)
      have howedMiddle : Owed containers (handle :: owed) := by
        apply howed.adjusted hentries
        · rw [List.count_cons_self, ← howed.counted handle _ hentry]
          rfl
        · intro other hother
          exact List.count_cons_of_ne hother.symm
        · intro other hother
          rcases List.mem_cons.mp hother with rfl | hother
          · exact hrecounted.readable ⟨_, hentry⟩
          · exact hrecounted.readable (howed.readable other hother)
      let middle : Workspace C P := { workspace with containers }
      have hallNow : AllSound middle.containers := hallMiddle
      obtain ⟨last, hrest, hallLast, howedLast, hrecountedLast⟩ :=
        ih hallNow howedMiddle fun other hother =>
          hrecounted.readable (hcome other (List.mem_cons_of_mem handle hother))
      refine ⟨last, by rw [List.foldlM_cons, hadjust, ok_bind, hrest], hallLast,
        howedLast.perm List.perm_middle, hrecounted.trans hrecountedLast⟩

/-- Giving back references that are owed succeeds. -/
theorem releaseAll_spec (hall : AllSound workspace.containers)
    (howed : Owed workspace.containers (go ++ rest)) :
    ∃ containers, go.foldlM (adjust Store.release) workspace = .ok { workspace with containers } ∧
      AllSound containers ∧ Owed containers rest ∧ Recounted workspace.containers containers := by
  induction go generalizing workspace with
  | nil => exact ⟨workspace.containers, rfl, hall, howed, .refl _⟩
  | cons handle others ih =>
      obtain ⟨entry, hentry⟩ := howed.readable handle (by simp)
      obtain ⟨container, hcontainer, hstored⟩ := entryAt_eq_some_iff.mp hentry
      obtain ⟨cell, hcell, rfl⟩ := Graph.stored?_eq_some_iff.mp hstored
      have hcounted : cell.references = (others ++ rest).count handle + 1 := by
        rw [← List.count_cons_self]
        exact howed.counted handle _ hentry
      obtain ⟨containers, hadjust, hallMiddle, hrecounted, hentries⟩ :=
        adjust_spec hall hcontainer hcell (Store.release_eq hcell (by omega))
      have howedMiddle : Owed containers (others ++ rest) := by
        apply howed.adjusted hentries
        · exact Nat.sub_eq_of_eq_add hcounted
        · intro other hother
          exact (List.count_cons_of_ne hother.symm).symm
        · intro other hother
          exact hrecounted.readable (howed.readable other (List.mem_cons_of_mem handle hother))
      let middle : Workspace C P := { workspace with containers }
      have hallNow : AllSound middle.containers := hallMiddle
      obtain ⟨last, hrest, hallLast, howedLast, hrecountedLast⟩ := ih hallNow howedMiddle
      exact ⟨last, by rw [List.foldlM_cons, hadjust, ok_bind, hrest], hallLast, howedLast,
        hrecounted.trans hrecountedLast⟩

/-- Exchanging references gives back only what is owed, and frees nothing. -/
theorem exchange_spec (hall : AllSound workspace.containers)
    (howed : Owed workspace.containers (go ++ rest))
    (hcome : ∀ handle ∈ come, Readable workspace.containers handle) :
    ∃ containers, workspace.exchange come go = .ok { workspace with containers } ∧
      AllSound containers ∧ Owed containers (come ++ rest) ∧
      Recounted workspace.containers containers := by
  obtain ⟨containers, hhold, hallMiddle, howedMiddle, hrecounted⟩ := holdAll_spec hall howed hcome
  let middle : Workspace C P := { workspace with containers }
  have hallNow : AllSound middle.containers := hallMiddle
  have hperm : (come ++ (go ++ rest)).Perm (go ++ (come ++ rest)) := by
    rw [← List.append_assoc, ← List.append_assoc]
    exact List.perm_append_comm.append_right rest
  obtain ⟨last, hrelease, hallLast, howedLast, hrecountedLast⟩ :=
    releaseAll_spec hallNow (howedMiddle.perm hperm)
  exact ⟨last, by rw [exchange, hhold, ok_bind, hrelease], hallLast, howedLast,
    hrecounted.trans hrecountedLast⟩

end Workspace

end FormalLanguages
