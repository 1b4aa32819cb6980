/-
# Nothing live is there twice

A container adds an element only if the group has no live one with the same data, and no other
change of a container makes anything live.  So the data of the live elements of a group are all
different, whatever was removed, kept as a tombstone and added again in between, and adding
agrees with a plain scan of all that is stored: the live copy is found if there is one, and
otherwise a new element takes the next number and the last place of its group.

Numbers are kept in words of 32 bits.  The only other thing that adding may come to is that there
is no number left.
-/

import FormalLanguages.Proofs.Workspace.History

namespace FormalLanguages

namespace Graph

variable {α : Type} {graph after : Graph α} {number : Nat} {data : α} {key : Key}
  {element : Element α}

/-- Every element of a group with the given data has been removed. -/
def Lacks (graph : Graph α) (number : Nat) (data : α) : Prop :=
  ∀ key element, graph.element key = .ok element → element.group = number →
    element.data = data → element.deleted = true

/-- The live elements of a group have different data. -/
def Unique (graph : Graph α) : Prop :=
  ∀ first second element other, graph.element first = .ok element →
    graph.element second = .ok other → element.deleted = false → other.deleted = false →
    element.group = other.group → element.data = other.data → first = second

/-- What happens to a graph at one time: elements are removed or counted anew, an element is
appended that no live one equals, or removed elements are freed. -/
inductive Turns (graph after : Graph α) : Prop
  | kept (hpersists : graph.Persists after) (hnextId : after.nextId = graph.nextId)
  | created {number : Nat} {data : α} {key : Key} (hlacks : graph.Lacks number data)
      (happended : graph.Appended number data key after)
  | swept (hswept : graph.Swept graph.store.reclaimable after)

/-- An element that is still live is read as before. -/
theorem Persists.element_of_live (hpersists : graph.Persists after)
    (helement : after.element key = .ok element) (hlive : element.deleted = false) :
    graph.element key = .ok element := by
  obtain ⟨now, hnow, rfl⟩ := element_eq_ok_iff.mp helement
  obtain ⟨entry, hentry, hbecomes⟩ := hpersists.origin key now hnow
  exact element_eq_ok_iff.mpr ⟨entry, hentry, (hbecomes.toElement_eq hlive).symm⟩

theorem Swept.element_before {keys : List Key} (hswept : graph.Swept keys after)
    (helement : after.element key = .ok element) : graph.element key = .ok element := by
  obtain ⟨entry, hentry, rfl⟩ := element_eq_ok_iff.mp helement
  rw [hswept.stored?_eq] at hentry
  split at hentry
  · cases hentry
  · exact element_of_stored hentry

/-- An element that can be read after another one was appended is the new one, or was there. -/
theorem Appended.element_cases (happended : graph.Appended number data key after) {other : Key}
    (helement : after.element other = .ok element) :
    (other = key ∧ element.group = number ∧ element.data = data) ∨
      graph.element other = .ok element := by
  obtain ⟨entry, hentry, rfl⟩ := element_eq_ok_iff.mp helement
  rw [happended.stored?_eq] at hentry
  split at hentry
  · next heq =>
      cases hentry
      exact .inl ⟨heq, rfl, rfl⟩
  · exact .inr (element_of_stored hentry)

/-- Nothing that happens to a graph makes a second live element with the same data. -/
theorem Turns.unique (hturns : graph.Turns after) (hunique : graph.Unique) : after.Unique := by
  intro first second element other hfirst hsecond hlive hlive' hgroup hdata
  cases hturns with
  | kept hpersists _ =>
      exact hunique first second element other (hpersists.element_of_live hfirst hlive)
        (hpersists.element_of_live hsecond hlive') hlive hlive' hgroup hdata
  | swept hswept =>
      exact hunique first second element other (hswept.element_before hfirst)
        (hswept.element_before hsecond) hlive hlive' hgroup hdata
  | created hlacks happended =>
      -- A live element that was there before the new one cannot equal it.
      rcases happended.element_cases hfirst with ⟨rfl, hnumber, hnew⟩ | hfirst
      · rcases happended.element_cases hsecond with ⟨rfl, -, -⟩ | hsecond
        · rfl
        · have hdeleted := hlacks second other hsecond (hgroup ▸ hnumber) (hdata ▸ hnew)
          rw [hdeleted] at hlive'
          cases hlive'
      · rcases happended.element_cases hsecond with ⟨rfl, hnumber, hnew⟩ | hsecond
        · have hdeleted := hlacks first element hfirst (hgroup ▸ hnumber) (hdata ▸ hnew)
          rw [hdeleted] at hlive
          cases hlive
        · exact hunique first second element other hfirst hsecond hlive hlive' hgroup hdata

/-- Numbers keep their kind and their width. -/
theorem Turns.nextId (hturns : graph.Turns after) :
    ∃ value, after.nextId = { graph.nextId with value } := by
  cases hturns with
  | kept _ hnextId => exact ⟨_, hnextId⟩
  | created _ happended => exact ⟨_, (Index.succ_eq_ok_iff.mp happended.nextId_eq).2⟩
  | swept hswept => exact ⟨_, hswept.nextId_eq⟩

theorem unique_of_stored?_eq_none (hempty : ∀ key, graph.stored? key = none) : graph.Unique := by
  intro first _ element _ hfirst
  obtain ⟨entry, hentry, -⟩ := element_eq_ok_iff.mp hfirst
  rw [hempty] at hentry
  cases hentry

end Graph

section Adds

variable {C α P E : Type} [Container C α P E]

/-- Adding an element to a group as a plain scan decides it, for numbers of 32 bits: a live
element of the group with the same data is the outcome, and nothing changes; without one, the
element is created, if there is a number left. -/
structure Adds (kind : IndexKind) (container : C) (number : Nat) (data : α)
    (outcome : Except Fault (Except Refusal (Key × C))) : Prop where
  found : ∀ key element, (Container.graph container).element key = .ok element →
    element.group = number → element.data = data → element.deleted = false →
      outcome = .ok (.ok (key, container))
  created : (Container.graph container).Lacks number data →
    (Container.graph container).nextId.value + 1 < Nat.pow 2 32 →
      ∃ key after, outcome = .ok (.ok (key, after)) ∧
        (Container.graph container).Creates number data key (Container.graph after)
  exhausted : (Container.graph container).Lacks number data →
    Nat.pow 2 32 ≤ (Container.graph container).nextId.value + 1 → outcome = .error (.overflow kind)

variable {kind : IndexKind} {container : C} {number : Nat} {data : α} {key : Key}

theorem adds_of_found (hunique : (Container.graph container).Unique) {element : Element α}
    (helement : (Container.graph container).element key = .ok element)
    (hgroup : element.group = number) (hdata : element.data = data)
    (hlive : element.deleted = false) :
    Adds kind container number data (.ok (.ok (key, container))) where
  found other copy hcopy hgroup' hdata' hlive' := by
    rw [hunique key other element copy helement hcopy hlive hlive' (hgroup.trans hgroup'.symm)
      (hdata.trans hdata'.symm)]
  created hlacks := by
    have hdeleted := hlacks key element helement hgroup hdata
    rw [hlive] at hdeleted
    cases hdeleted
  exhausted hlacks := by
    have hdeleted := hlacks key element helement hgroup hdata
    rw [hlive] at hdeleted
    cases hdeleted

theorem adds_of_created {value : Nat} (hsound : (Container.graph container).Sound)
    (hnumber : number < (Container.graph container).groups.size)
    (hnextId : (Container.graph container).nextId = ⟨kind, 32, value⟩)
    (hlacks : (Container.graph container).Lacks number data) {after : C}
    (happended : (Container.graph container).Appended number data key (Container.graph after)) :
    Adds kind container number data (.ok (.ok (key, after))) where
  found other copy hcopy hgroup hdata hlive := by
    have hdeleted := hlacks other copy hcopy hgroup hdata
    rw [hlive] at hdeleted
    cases hdeleted
  created _ _ := ⟨key, after, rfl, happended.creates hsound hnumber⟩
  exhausted _ hfull := by
    have hroom := (Index.succ_eq_ok_iff.mp happended.nextId_eq).1
    rw [hnextId] at hroom hfull
    exact absurd hroom (Nat.not_lt.mpr hfull)

theorem adds_of_exhausted {value : Nat}
    (hnextId : (Container.graph container).nextId = ⟨kind, 32, value⟩)
    (hlacks : (Container.graph container).Lacks number data)
    (hfull : (Container.graph container).nextId.succ =
      .error (.overflow (Container.graph container).nextId.kind)) :
    Adds kind container number data
      (.error (.overflow (Container.graph container).nextId.kind)) where
  found other copy hcopy hgroup hdata hlive := by
    have hdeleted := hlacks other copy hcopy hgroup hdata
    rw [hlive] at hdeleted
    cases hdeleted
  created _ hroom := by
    have hle := Index.le_of_succ_eq_error hfull
    rw [hnextId] at hle hroom
    exact absurd hroom (Nat.not_lt.mpr hle)
  exhausted _ _ := by rw [hnextId]

end Adds

/-- Containers that add no element that a live one equals. -/
class Deduplicating (C : Type) (α P E : outParam Type) [Container C α P E]
    [LawfulContainer C α P E] : Prop where
  edit_turns {container after : C} {change : E} {answer : Answer}
    (hsound : LawfulContainer.Sound container)
    (hedit : Container.edit container change = .ok (answer, after)) :
    (Container.graph container).Turns (Container.graph after)

section Deduplicating

variable {C α P E : Type} [Container C α P E] [LawfulContainer C α P E] [Deduplicating C α P E]
  {container now : C}

theorem Develops.turns (hdevelops : Develops container now)
    (hsound : LawfulContainer.Sound container) :
    (Container.graph container).Turns (Container.graph now) := by
  cases hdevelops with
  | edited hedit => exact Deduplicating.edit_turns hsound hedit
  | relabeled _ hrelabeled hpersists =>
      rw [LawfulContainer.graph_setGraph]
      exact .kept hpersists hrelabeled.nextId_eq
  | reclaimed hreclaim => exact .swept (swept_of_reclaim_eq_ok hsound hreclaim).2

namespace Descends

variable (hdescends : Descends container now) (hsound : LawfulContainer.Sound container)

include hdescends hsound

theorem unique (hunique : (Container.graph container).Unique) :
    (Container.graph now).Unique :=
  (hdescends.preserves (fun now => (Container.graph now).Unique)
    (fun _ _ hbefore hdevelops => (hdevelops.turns hbefore).unique) hsound hunique).2

theorem nextId : ∃ value, (Container.graph now).nextId =
    { (Container.graph container).nextId with value } := by
  refine (hdescends.preserves (fun now => ∃ value, (Container.graph now).nextId =
    { (Container.graph container).nextId with value }) ?_ hsound ⟨_, rfl⟩).2
  rintro before after hbefore hdevelops ⟨value, hvalue⟩
  obtain ⟨value', hvalue'⟩ := (hdevelops.turns hbefore).nextId
  exact ⟨value', by rw [hvalue', hvalue]⟩

end Descends

end Deduplicating

end FormalLanguages
