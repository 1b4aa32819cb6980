/-
# A creation is numbered once and for all

Of all that happens to a container, only adding an element that is not there brings one in.  The
element that comes in takes the number after that of the last one, and whatever can be read at any
later moment is an element that came in once, with the number, the group and the data it had then.
Reclaiming frees slots and the keys of slots are used again, but numbers are not.

So numbers tell elements apart where keys do not: a key may be used up, a number is never given
twice.
-/

import FormalLanguages.Proofs.Workspace.Productions
import FormalLanguages.Proofs.Workspace.Transitions

namespace FormalLanguages

/-- What may have happened to an element since it was read: it may have been removed. -/
structure Element.Endures {α : Type} (element now : Element α) : Prop where
  same : now = { element with deleted := now.deleted }
  deleted : element.deleted = true → now.deleted = true

theorem Element.Endures.trans {α : Type} {element middle now : Element α}
    (hfirst : element.Endures middle) (hsecond : middle.Endures now) : element.Endures now where
  same := by
    rw [hsecond.same, hfirst.same]
  deleted := hsecond.deleted ∘ hfirst.deleted

theorem Entry.Becomes.endures {α : Type} {entry now : Entry α} (hbecomes : entry.Becomes now) :
    entry.toElement.Endures now.toElement where
  same := by
    rw [← hbecomes.id_eq, ← hbecomes.group_eq, ← hbecomes.data_eq]
  deleted := hbecomes.deleted

namespace Graph

variable {α : Type} {graph middle after : Graph α}

/-- A graph into which nothing came. -/
structure Calm (graph after : Graph α) : Prop where
  nextId_eq : after.nextId = graph.nextId
  slots_eq : after.store.slots.size = graph.store.slots.size
  origin : ∀ key now, after.element key = .ok now →
    ∃ before, graph.element key = .ok before ∧ before.Endures now

theorem Persists.calm (hpersists : graph.Persists after) (hnextId : after.nextId = graph.nextId)
    (hslots : after.store.slots.size = graph.store.slots.size) : graph.Calm after where
  nextId_eq := hnextId
  slots_eq := hslots
  origin key now hnow := by
    obtain ⟨entry', hentry', rfl⟩ := element_eq_ok_iff.mp hnow
    obtain ⟨entry, hentry, hbecomes⟩ := hpersists.origin key entry' hentry'
    exact ⟨entry.toElement, element_of_stored hentry, hbecomes.endures⟩

theorem Calm.refl (graph : Graph α) : graph.Calm graph :=
  (Widened.refl graph).persists.calm rfl rfl

theorem Widened.calm {count : Nat} (hwidened : graph.Widened after count) : graph.Calm after :=
  hwidened.persists.calm hwidened.nextId_eq hwidened.slots_eq

theorem Recounted.calm (hrecounted : graph.Recounted after) : graph.Calm after :=
  hrecounted.persists.calm hrecounted.nextId_eq hrecounted.slots_eq

theorem Swept.calm {keys : List Key} (hswept : graph.Swept keys after)
    (hslots : after.store.slots.size = graph.store.slots.size) : graph.Calm after where
  nextId_eq := hswept.nextId_eq
  slots_eq := hslots
  origin _ now hnow := ⟨now, hswept.element_before hnow, rfl, id⟩

/-- What came into a graph: nothing, or one element with the next number. -/
inductive Grows (graph after : Graph α) : Option (Element α) → Prop
  | calm (hcalm : graph.Calm after) : Grows graph after none
  | created {element : Element α} (hid : element.id = graph.nextId.value)
      (hnextId : after.nextId.value = graph.nextId.value + 1)
      (hslots : after.store.slots.size ≤ graph.store.slots.size + 1)
      (horigin : ∀ key now, after.element key = .ok now →
        (∃ before, graph.element key = .ok before ∧ before.Endures now) ∨ element.Endures now) :
      Grows graph after (some element)

theorem Grows.calm_after {created : Option (Element α)} (hgrows : graph.Grows middle created)
    (hcalm : middle.Calm after) : graph.Grows after created := by
  cases hgrows with
  | calm hcalm' =>
      refine .calm ⟨hcalm.nextId_eq.trans hcalm'.nextId_eq,
        hcalm.slots_eq.trans hcalm'.slots_eq, fun key now hnow => ?_⟩
      obtain ⟨found, hfound, hendures⟩ := hcalm.origin key now hnow
      obtain ⟨before, hbefore, hendures'⟩ := hcalm'.origin key found hfound
      exact ⟨before, hbefore, hendures'.trans hendures⟩
  | created hid hnextId hslots horigin =>
      refine .created hid ((congrArg Index.value hcalm.nextId_eq).trans hnextId)
        (hcalm.slots_eq ▸ hslots) fun key now hnow => ?_
      obtain ⟨found, hfound, hendures⟩ := hcalm.origin key now hnow
      rcases horigin key found hfound with ⟨before, hbefore, hendures'⟩ | hnew
      · exact .inl ⟨before, hbefore, hendures'.trans hendures⟩
      · exact .inr (hnew.trans hendures)

theorem Appended.grows {number : Nat} {data : α} {key : Key}
    (happended : graph.Appended number data key after) :
    graph.Grows after (some ⟨graph.nextId.value, number, data, false⟩) := by
  refine .created rfl happended.nextId_value happended.slots_le fun other now hnow => ?_
  obtain ⟨entry, hentry, rfl⟩ := element_eq_ok_iff.mp hnow
  rw [happended.stored?_eq] at hentry
  split at hentry
  · cases hentry
    exact .inr ⟨rfl, id⟩
  · exact .inl ⟨entry.toElement, element_of_stored hentry, rfl, id⟩

end Graph

/-! ## Changes of containers -/

section Numbering

variable {C α P E : Type} [Container C α P E]

/-- What a change of a container comes to: nothing came in, or one element did, which the answer
names, or there is no number left. -/
inductive Numbers (container : C) : Except Fault (Answer × C) → Prop
  | calm {answer : Answer} {after : C}
      (hcalm : (Container.graph container).Calm (Container.graph after)) :
      Numbers container (.ok (answer, after))
  | created {number : Nat} {data : α} {key : Key} {after : C}
      (happended : (Container.graph container).Appended number data key (Container.graph after)) :
      Numbers container (.ok (.element key, after))
  | exhausted (hfull : (Container.graph container).nextId.succ =
        .error (.overflow (Container.graph container).nextId.kind)) :
      Numbers container (.error (.overflow (Container.graph container).nextId.kind))

/-- Containers whose changes bring in no more than one element, under the next number. -/
class Numbering (C : Type) (α P E : outParam Type) [Container C α P E]
    [LawfulContainer C α P E] : Prop where
  edit_numbers {container : C} (hsound : LawfulContainer.Sound container) (change : E) :
    Numbers container (Container.edit container change)
  /-- Slots that are freed stay. -/
  reclaim_slots {container after : C} {count : Nat} (hsound : LawfulContainer.Sound container)
    (hreclaim : Container.reclaim container = .ok (count, after)) :
    (Container.graph after).store.slots.size = (Container.graph container).store.slots.size

end Numbering

namespace Grammar

instance numbering {A : Type} [DecidableEq A] :
    Numbering (Grammar A) SymbolString Pattern (Edit A) where
  edit_numbers {grammar} hsound change := by
    have heffect := hsound.edit_effect change
    simp only [Container.edit]
    generalize grammar.edit change = outcome at heffect ⊢
    cases heffect with
    | widened _ hwidened => exact .calm hwidened.calm
    | created _ _ _ happended => exact .created happended
    | removed _ _ _ hremoved =>
        exact .calm (hremoved.persists.calm hremoved.nextId_eq hremoved.slots_eq)
    | exhausted _ _ hfull => exact .exhausted hfull
    | _ => exact .calm (.refl grammar.graph)
  reclaim_slots {grammar after _} hsound hreclaim := by
    obtain ⟨freed, graph, hgraph, -, -, hslots, -⟩ := Graph.reclaim_swept hsound.graph
    simp only [Container.reclaim, reclaim_eq, hgraph, ok_bind, pure_eq_ok] at hreclaim
    cases hreclaim
    exact hslots

end Grammar

namespace Automaton

instance numbering {A : Type} [DecidableEq A] :
    Numbering (Automaton A) Move Pattern (Edit A) where
  edit_numbers {automaton} hsound change := by
    have heffect := hsound.edit_effect change
    simp only [Container.edit]
    generalize automaton.edit change = outcome at heffect ⊢
    cases heffect with
    | widened _ hwidened => exact .calm hwidened.calm
    | created _ _ _ happended => exact .created happended
    | exhausted _ _ hfull => exact .exhausted hfull
    | _ => exact .calm (.refl automaton.graph)
  reclaim_slots {automaton after _} hsound hreclaim := by
    obtain ⟨freed, graph, hgraph, -, -, hslots, -⟩ := Graph.reclaim_swept hsound.graph
    simp only [Container.reclaim, reclaim_eq, hgraph, ok_bind, pure_eq_ok] at hreclaim
    cases hreclaim
    exact hslots

end Automaton

end FormalLanguages
